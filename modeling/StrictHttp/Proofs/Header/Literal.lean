import StrictHttp.Proofs.Header.Lines
import StrictHttp.Proofs.Text.Quoted
import StrictHttp.Proofs.Value.Equivalence

/-!
# Literals of headers

The literal of a header says which header it is, up to equality: the two names of the variants
differ in their first letter, and a quoted byte string has one reading and one end whatever stands
behind it (`Bytes.quoteChars_append_inj`), so a value that looks like the rest of a literal does not
pass for it. Nothing of this needs the header to be well formed. For one that is, no octet has to be
written by its number: a tab shows as a backslash and the letter t, and all else as itself.
-/

namespace StrictHttp

open Text (AllPrintable IsMark apostrophe quotationMark backslash enclose escape markFor
  isPrintableAscii)

-- ---------------------------------------------------------------------------
-- Octets of values in quotes

namespace Bytes

/-- An octet between these marks, of which the mark and the backslash follow a backslash. -/
def shown (mark : Char) (b : UInt8) : List Char :=
  let c := Char.ofNat b.toNat
  if b = tab then [backslash, 't']
  else if c = mark ∨ c = backslash then [backslash, c]
  else [c]

/-- The octets stand in quotes, between quotation marks if they have an apostrophe and no quotation
mark, and else between apostrophes. -/
def ShowsAs (s : Bytes) (text : List Char) : Prop :=
  ∃ mark, IsMark mark ∧
    (mark = quotationMark ↔ apostrophe ∈ s.toChars ∧ quotationMark ∉ s.toChars) ∧
      text = 'b' :: enclose mark (s.flatMap (shown mark))

theorem escape_of_isValueOctet {mark : Char} {b : UInt8} (hmark : IsMark mark)
    (hb : IsValueOctet b) : escape isPrintableAscii mark (Char.ofNat b.toNat) = shown mark b := by
  obtain rfl | rfl := hmark
  all_goals
    revert b
    apply forall_octet
    decide +kernel

theorem flatMap_escape {mark : Char} {s : Bytes} (hmark : IsMark mark)
    (hs : ∀ b ∈ s, IsValueOctet b) :
    s.toChars.flatMap (escape isPrintableAscii mark) = s.flatMap (shown mark) := by
  rw [toChars, List.flatMap_map]
  exact List.flatMap_congr fun b hb => escape_of_isValueOctet hmark (hs b hb)

theorem showsAs_quoteChars {s : Bytes} (hs : ∀ b ∈ s, IsValueOctet b) :
    s.ShowsAs s.quoteChars := by
  have hmark := Text.isMark_markFor s.toChars
  refine ⟨markFor s.toChars, hmark, ?_, ?_⟩
  · rw [markFor]
    split
    · rename_i hquotes
      simpa using hquotes
    · rename_i hquotes
      simpa [show apostrophe ≠ quotationMark by decide] using hquotes
  · rw [quoteChars, Text.quoteWith, flatMap_escape hmark hs]

end Bytes

-- ---------------------------------------------------------------------------
-- Literals

namespace Header

section
variable {h k : Header}

theorem variantName_append_inj {variant variant' : Variant} {rest rest' : List Char}
    (h : (variantName variant).toList ++ rest = (variantName variant').toList ++ rest') :
    variant = variant' ∧ rest = rest' := by
  cases variant <;> cases variant' <;> simp [variantName] at h ⊢ <;> exact h

theorem toList_literal (h : Header) : h.literal.toList =
    (variantName h.variant).toList ++ ("(field=".toList ++
      (h.field.quoteChars ++ (", value=".toList ++ (h.value.quoteChars ++ ")".toList)))) := by
  simp only [literal, String.toList_append, Bytes.toList_quote, List.append_assoc]

theorem literal_inj :
    h.literal = k.literal ↔ h.variant = k.variant ∧ h.field = k.field ∧ h.value = k.value := by
  constructor
  · intro hsame
    have hchars := congrArg String.toList hsame
    rw [toList_literal, toList_literal] at hchars
    obtain ⟨hvariant, hfields⟩ := variantName_append_inj hchars
    rw [List.append_cancel_left_eq, Bytes.quoteChars_append_inj] at hfields
    obtain ⟨hfield, hvalues⟩ := hfields
    rw [List.append_cancel_left_eq, Bytes.quoteChars_append_inj] at hvalues
    exact ⟨hvariant, hfield, hvalues.1⟩
  · rintro ⟨hvariant, hfield, hvalue⟩
    rw [literal, literal, hvariant, hfield, hvalue]

theorem printable_literal (h : Header) : AllPrintable h.literal.toList := by
  have hframe : AllPrintable "(field=".toList ∧ AllPrintable ", value=".toList ∧
      AllPrintable ")".toList := by decide
  have hvariant : AllPrintable (variantName h.variant).toList := by
    cases h.variant <;> decide
  obtain ⟨hopening, hmiddle, hend⟩ := hframe
  simp only [toList_literal, Text.allPrintable_append]
  exact ⟨hvariant, hopening, h.field.printable_quoteChars, hmiddle, h.value.printable_quoteChars,
    hend⟩

/-- Two headers have one literal exactly if they are of one variant and equal. It is printable ASCII
throughout. In that of a header that can be reached, the lowered name and the value stand in quotes
with every octet as itself, save tabs and what needs a backslash. -/
theorem literal_determines :
    (∀ h k : Header, (Value.header h).literal = (Value.header k).literal ↔
      h.variant = k.variant ∧ Value.Holds .eq (.header h) (.header k)) ∧
    (∀ h : Header, ∀ c ∈ (Value.header h).literal.toList, 0x20 ≤ c.toNat ∧ c.toNat ≤ 0x7E) ∧
    ∀ h : Header, h.Reachable → ∃ field value : List Char,
      h.field.ShowsAs field ∧ h.value.ShowsAs value ∧
        (Value.header h).literal.toList = (variantName h.variant).toList ++ "(field=".toList ++
          field ++ ", value=".toList ++ value ++ ")".toList := by
  have hliteral (h : Header) : (Value.header h).literal = h.literal := by rw [Value.literal]
  simp only [hliteral]
  refine ⟨?_, ?_, ?_⟩
  · intro h k
    rw [literal_inj, Value.holds_eq_header_iff]
    simp
  · intro h c hc
    exact Text.isPrintableAscii_iff.mp (h.printable_literal c hc)
  · intro h hh
    have hstrict := (reachable_iff.mp hh).strict
    refine ⟨h.field.quoteChars, h.value.quoteChars, ?_, ?_, ?_⟩
    · exact Bytes.showsAs_quoteChars fun b hb => (hstrict.field.2 b hb).1.valueOctet
    · exact Bytes.showsAs_quoteChars hstrict.value.1
    · simp only [toList_literal, List.append_assoc]

/-- The name has an apostrophe, and the value begins like a literal and has marks of both kinds, a
closing bracket, a tab and a backslash. -/
theorem literal_determines_imitation :
    Reachable ⟨.derived, [0x58, 0x27], [0x62, 0x22, 0x27, 0x29, 0x09, 0x5C]⟩ ∧
      ∃ field value : List Char, Bytes.ShowsAs [0x78, 0x27] field ∧
        Bytes.ShowsAs [0x62, 0x22, 0x27, 0x29, 0x09, 0x5C] value ∧
          "SubHeader".toList ++ "(field=".toList ++ field ++ ", value=".toList ++ value ++
            ")".toList = "SubHeader(field=b\"x'\", value=b'b\"\\')\\t\\\\')".toList := by
  have hreachable : Reachable ⟨.derived, [0x58, 0x27], [0x62, 0x22, 0x27, 0x29, 0x09, 0x5C]⟩ :=
    reachable_iff.mpr
      ⟨Grammar.accepts_fieldName_iff.mp (by decide), Grammar.accepts_fieldValue_iff.mp (by decide)⟩
  obtain ⟨field, value, hfield, hvalue, hlayout⟩ := literal_determines.2.2 _ hreachable
  refine ⟨hreachable, field, value, hfield, hvalue, hlayout.symm.trans (congrArg String.toList ?_)⟩
  rw [Value.literal]
  decide

end

end Header

end StrictHttp
