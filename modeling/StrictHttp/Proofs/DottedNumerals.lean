import StrictHttp.Grammar
import StrictHttp.Proofs.PatternReadings
import StrictHttp.Validation

/-!
# Dotted numerals

Two runs of digits with a full stop between them. A full stop is no digit, so the first run ends at
the first full stop and the pattern is unambiguous: no byte string falls into two such runs in two
ways (`IsDotted.unique`), and the groups take these runs, whatever a walk tries first
(`read?_dotted`).
-/

namespace StrictHttp

namespace Grammar

open Pattern

/-- The numerals `g` and `h` with a full stop between them. -/
structure IsDotted (s g h : Bytes) : Prop where
  split : s = g ++ fullStop :: h
  first : IsRun isDigit g
  second : IsRun isDigit h

@[simp] theorem groups_dotted : dotted.groups = ["group1", "group2"] := rfl

/-- How the pattern reads two numerals. -/
def dottedReading (g h : Bytes) : Reading :=
  .seq (.group "group1" (.run g)) (.seq (.one fullStop) (.group "group2" (.run h)))

@[simp] theorem bytes_dottedReading (g h : Bytes) :
    (dottedReading g h).bytes = g ++ fullStop :: h := rfl

section
variable {s g h : Bytes} {r : Reading}

theorem dotted_reads_iff : dotted.Reads r ↔
    ∃ g h, r = dottedReading g h ∧ IsRun isDigit g ∧ IsRun isDigit h := by
  constructor
  · intro hr
    simp only [dotted, reads_seq_iff, reads_group_iff, reads_run_iff, reads_one_iff] at hr
    obtain ⟨_, _, rfl, ⟨_, rfl, g, rfl, hg⟩, _, _, rfl, ⟨b, rfl, hb⟩, _, rfl, h, rfl, hh⟩ := hr
    obtain rfl := eq_of_beq hb
    exact ⟨g, h, rfl, hg, hh⟩
  · rintro ⟨g, h, rfl, hg, hh⟩
    exact .seq (.group (.run hg)) (.seq (.one rfl) (.group (.run hh)))

theorem stops_fullStop (h : Bytes) : Stops isDigit (fullStop :: h) := stops_cons.mpr rfl

theorem dotted_unambiguous : dotted.Unambiguous := by
  intro r r' hr hr' hbytes
  obtain ⟨g, h, rfl, hg, -⟩ := dotted_reads_iff.mp hr
  obtain ⟨g', h', rfl, hg', -⟩ := dotted_reads_iff.mp hr'
  obtain ⟨rfl, hrest⟩ := append_stops_inj hg.2 hg'.2 (stops_fullStop h) (stops_fullStop h') hbytes
  obtain ⟨-, rfl⟩ := List.cons.inj hrest
  rfl

theorem IsDotted.reads (hs : IsDotted s g h) : dotted.Reads (dottedReading g h) :=
  dotted_reads_iff.mpr ⟨g, h, rfl, hs.first, hs.second⟩

/-- The pattern describes the byte strings that fall into two numerals. -/
theorem matches_dotted_iff : dotted.Matches s ↔ ∃ g h, IsDotted s g h := by
  rw [matches_iff_reads]
  constructor
  · rintro ⟨r, hr, rfl⟩
    obtain ⟨g, h, rfl, hg, hh⟩ := dotted_reads_iff.mp hr
    exact ⟨g, h, bytes_dottedReading g h, hg, hh⟩
  · rintro ⟨g, h, hs⟩
    exact ⟨_, hs.reads, hs.split.symm⟩

/-- Two splits are two readings of one byte string. -/
theorem IsDotted.unique {g' h' : Bytes} (hs : IsDotted s g h) (hs' : IsDotted s g' h') :
    g = g' ∧ h = h' := by
  have hbytes : (dottedReading g h).bytes = (dottedReading g' h').bytes :=
    hs.split.symm.trans hs'.split
  have hreading := dotted_unambiguous _ _ hs.reads hs'.reads hbytes
  simpa [dottedReading] using hreading

/-- The groups of the pattern take the two numerals. -/
theorem read?_dotted (hs : IsDotted s g h) :
    dotted.read? s = some [("group1", some g), ("group2", some h)] := by
  have hmatch := dotted_unambiguous.fullMatch_eq hs.reads
  obtain ⟨rfl, -, -⟩ := hs
  have hfirst : ((dottedReading g h).capture [] []).find? "group1" = some g := by
    simp [Captures.find?, dottedReading, Reading.capture, Reading.bytes, Capture.taken_append]
  have hsecond : ((dottedReading g h).capture [] []).find? "group2" = some h := by
    simp [Captures.find?, dottedReading, Reading.capture, Reading.bytes, Capture.taken]
  rw [bytes_dottedReading] at hmatch
  simp [read?, hmatch, hfirst, hsecond]

example : dotted.read? [0x31, 0x2E, 0x31, 0x30] =
    some [("group1", some [0x31]), ("group2", some [0x31, 0x30])] := by decide

theorem read?_dotted_iff {groups : List (String × Option Bytes)} : dotted.read? s = some groups ↔
    ∃ g h, groups = [("group1", some g), ("group2", some h)] ∧ IsDotted s g h := by
  constructor
  · intro hread
    have hsome : (dotted.read? s).isSome = true := by simp [hread]
    obtain ⟨g, h, hs⟩ := matches_dotted_iff.mp (isSome_read?.mp hsome)
    rw [read?_dotted hs] at hread
    exact ⟨g, h, (Option.some.inj hread).symm, hs⟩
  · rintro ⟨g, h, rfl, hs⟩
    exact read?_dotted hs

theorem validate_dotted (hs : IsDotted s g h) (form : ByteForm) (message : Value)
    (errorClass : ErrorClass) :
    validate dotted (.bytes form s) message errorClass =
      .ok [("group1", some g), ("group2", some h)] := by
  simp [validate, read?_dotted hs]

end

end Grammar

end StrictHttp
