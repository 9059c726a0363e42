import StrictHttp.Session
import StrictHttp.Proofs.Padding
import StrictHttp.Proofs.FieldGrammar
import StrictHttp.Proofs.Header.Reading
import StrictHttp.Proofs.Sorting
import StrictHttp.Proofs.Value.Contents
import StrictHttp.Proofs.Session.Headers
import StrictHttp.Proofs.Header.Lines
import StrictHttp.Proofs.Value.Denotation
import StrictHttp.Proofs.Value.Standing
import StrictHttp.Proofs.Value.Consultation
import StrictHttp.Proofs.Version.Carriers
import StrictHttp.Proofs.Value.Equivalence
import StrictHttp.Proofs.Value.Ranking
import StrictHttp.Proofs.Header.Refusal
import StrictHttp.Proofs.Header.Spelling
import StrictHttp.Proofs.Version.Order
import StrictHttp.Proofs.Collection
import StrictHttp.Proofs.Header.Segments
import StrictHttp.Proofs.Version.Pairs
import StrictHttp.Proofs.Header.Equality
import StrictHttp.Proofs.Session.Rebuilding
import StrictHttp.Proofs.Sorting.ByKey
import StrictHttp.Proofs.Version.Sorting
import StrictHttp.Proofs.Text.Quoted
import StrictHttp.Proofs.Header.Records
import StrictHttp.Proofs.Spans
import StrictHttp.Proofs.PatternReadings
import StrictHttp.Proofs.FieldRuns
import StrictHttp.Proofs.DottedNumerals
import StrictHttp.Proofs.Version.Text
import StrictHttp.Proofs.Value.Representable
import StrictHttp.Proofs.Header.Literal
import StrictHttp.Proofs.Validation
import StrictHttp.Proofs.Value.Writing
