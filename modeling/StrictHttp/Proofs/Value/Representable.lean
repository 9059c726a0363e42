import Mathlib.Data.List.Forall2
import StrictHttp.Proofs.Spans
import StrictHttp.Proofs.Value.Coercion

/-!
# Which values are bytes

Text of ASCII characters, byte strings of any form and sequences of numbers from 0 to 255 have
bytes, one for each character, octet and item, and no other value has. Text that is refused is
refused for its first stretch of characters outside ASCII, the whole of it (`toAscii_error_iff`). A
sequence is refused for its first item that is no octet, whatever stands behind it
(`decided_toOctets`). A bare number is no sequence, and the items of a header are byte strings.
-/

namespace StrictHttp

open Text (AllAscii isAscii)

namespace Value

-- ---------------------------------------------------------------------------
-- Numbers and sequences

/-- Integers, and truth values as 0 and 1. -/
inductive IsNumber : Value → Int → Prop
  | int (n : Int) : IsNumber (int n) n
  | no : IsNumber (bool false) 0
  | yes : IsNumber (bool true) 1

/-- What stands in a sequence: the items of a list or tuple, the components of a version, the names
of a dictionary. -/
inductive IsSequence : Value → List Value → Prop
  | list (items : List Value) : IsSequence (list items) items
  | tuple (items : List Value) : IsSequence (tuple items) items
  | version (variant : Variant) (major minor : Value) :
      IsSequence (version variant major minor) [major, minor]
  | dictionary (names : List String) (values : List Value) :
      IsSequence (dictionary names values) (names.map text)

/-- The value has bytes. -/
inductive Representable : Value → Prop
  | text {s : String} : (∀ c ∈ s.toList, c.toNat < 0x80) → Representable (text s)
  | bytes (form : ByteForm) (data : Bytes) : Representable (bytes form data)
  | sequence {x items} : IsSequence x items →
      (∀ item ∈ items, ∃ n, IsNumber item n ∧ 0 ≤ n ∧ n ≤ 255) → Representable x

/-- The bytes are those of the value, one for each character, octet or item in its place. -/
inductive HasBytes : Value → Bytes → Prop
  | text {s : String} {data} : List.Forall₂ (fun c b => c.toNat = b.toNat) s.toList data →
      HasBytes (text s) data
  | bytes (form : ByteForm) (data : Bytes) : HasBytes (bytes form data) data
  | sequence {x items data} : IsSequence x items →
      List.Forall₂ (fun item b => IsNumber item b.toNat) items data → HasBytes x data

/-- The item is no octet, and this is its fault: a number is out of range, all else is no number. -/
inductive Unfit : Value → Fault → Prop
  | range {v n} : IsNumber v n → ¬(0 ≤ n ∧ n ≤ 255) → Unfit v .octetRange
  | kind {v} : (∀ n, ¬IsNumber v n) → Unfit v (.notInteger v.kind)

/-- The value has no bytes, and this is what it is refused as and the fault. -/
inductive Offends : Value → Fault.Category → Fault → Prop
  /-- The characters between a beginning in ASCII and the next ASCII character or the end. -/
  | text {s : String} {before run rest : List Char} : s.toList = before ++ run ++ rest →
      (∀ c ∈ before, c.toNat < 0x80) → run ≠ [] → (∀ c ∈ run, 0x80 ≤ c.toNat) →
      (∀ c ∈ rest.head?, c.toNat < 0x80) →
      Offends (text s) .encoding (.nonAscii before.length run)
  | number {x n} : IsNumber x n → Offends x .type .bareInteger
  | null : Offends null .type (.noBytes .null)
  | header (h : Header) : Offends (header h) .type (.notInteger (.bytes .plain))
  | range {x items item} : IsSequence x items → FirstFailure Unfit items item .octetRange →
      Offends x .value .octetRange
  | kind {x items item} : IsSequence x items →
      FirstFailure Unfit items item (.notInteger item.kind) →
      Offends x .type (.notInteger item.kind)

end Value

-- ---------------------------------------------------------------------------
-- Text

namespace Text

section
variable {text : List Char} {data : Bytes} {f : Fault}

theorem not_isAscii_iff (c : Char) : (!isAscii c) = true ↔ 0x80 ≤ c.toNat := by
  simp [isAscii]

theorem toAscii_ok (h : toAscii text = .ok data) :
    AllAscii text ∧ List.Forall₂ (fun c b => c.toNat = b.toNat) text data := by
  have hascii : AllAscii text := by
    by_contra hnot
    obtain ⟨start, run, hrun⟩ := toAscii_of_not_allAscii hnot
    rw [hrun] at h
    cases h
  rw [toAscii_of_allAscii hascii] at h
  obtain rfl := Except.ok.inj h
  refine ⟨hascii, ?_⟩
  rw [List.forall₂_map_right_iff, List.forall₂_same]
  intro c hc
  have hsize : c.toNat < UInt8.size := Nat.lt_trans (hascii c hc) (by decide)
  exact (UInt8.toNat_ofNat_of_lt' hsize).symm

/-- The stretch that is reported begins behind the ASCII characters at the front and ends before the
next one. -/
theorem toAscii_error_iff : toAscii text = .error f ↔ ∃ before run rest,
    text = before ++ run ++ rest ∧ (∀ c ∈ before, c.toNat < 0x80) ∧ run ≠ [] ∧
      (∀ c ∈ run, 0x80 ≤ c.toNat) ∧ (∀ c ∈ rest.head?, c.toNat < 0x80) ∧
      f = .nonAscii before.length run := by
  constructor
  · intro h
    cases hbehind : text.dropWhile isAscii with
    | nil =>
      rw [toAscii, hbehind] at h
      cases h
    | cons c behind =>
      have hc : isAscii c = false := stops_cons.mp (hbehind ▸ stops_dropWhile isAscii text)
      rw [toAscii, hbehind] at h
      refine ⟨text.takeWhile isAscii, (c :: behind).takeWhile (!isAscii ·),
        (c :: behind).dropWhile (!isAscii ·), ?_, ?_, ?_, ?_, ?_, (Except.error.inj h).symm⟩
      · rw [List.append_assoc, List.takeWhile_append_dropWhile, ← hbehind,
          List.takeWhile_append_dropWhile]
      · exact fun d hd => (isAscii_iff d).mp (List.mem_takeWhile_imp hd)
      · simp [hc]
      · intro d hd
        exact (not_isAscii_iff d).mp (List.mem_takeWhile_imp (p := fun e => !isAscii e) hd)
      · intro d hd
        have hd' := stops_dropWhile (!isAscii ·) (c :: behind) d hd
        exact (isAscii_iff d).mp (by simpa using hd')
  · rintro ⟨before, run, rest, rfl, hbefore, hne, hrun, hrest, rfl⟩
    obtain ⟨c, run, rfl⟩ := List.exists_cons_of_ne_nil hne
    have hfront : ∀ d ∈ before, isAscii d = true := fun d hd => (isAscii_iff d).mpr (hbefore d hd)
    have hbehind : Stops isAscii (c :: (run ++ rest)) := by
      simpa using (not_isAscii_iff c).mpr (hrun c (by simp))
    have hrun' : ∀ d ∈ c :: run, (!isAscii d) = true :=
      fun d hd => (not_isAscii_iff d).mpr (hrun d hd)
    have hrest' : Stops (!isAscii ·) rest := by
      intro d hd
      simpa using (isAscii_iff d).mpr (hrest d hd)
    rw [List.append_assoc, List.cons_append, toAscii, takeWhile_append_stops hfront hbehind,
      dropWhile_append_stops hfront hbehind]
    simp only [← List.cons_append, takeWhile_append_stops hrun' hrest']

end

end Text

-- ---------------------------------------------------------------------------
-- Sequences

namespace Value

section
variable {v x : Value} {n : Int} {items : List Value} {data : Bytes} {f : Fault}

theorem isNumber_iff : IsNumber v n ↔ v.int? = some n := by
  constructor
  · rintro (_ | _ | _) <;> rfl
  · intro h
    cases v with
    | int m =>
      obtain rfl := Option.some.inj h
      exact .int m
    | bool b =>
      obtain rfl := Option.some.inj h
      cases b
      · exact .no
      · exact .yes
    | _ => cases h

theorem IsNumber.unique {m : Int} (h : IsNumber v m) (h' : IsNumber v n) : m = n :=
  Option.some.inj ((isNumber_iff.mp h).symm.trans (isNumber_iff.mp h'))

theorem Unfit.unique (v : Value) (f f' : Fault) (h : Unfit v f) (h' : Unfit v f') : f = f' := by
  cases h with
  | range hn hrange =>
    cases h' with
    | range _ _ => rfl
    | kind hnot => exact (hnot _ hn).elim
  | kind hnot =>
    cases h' with
    | range hn _ => exact (hnot _ hn).elim
    | kind _ => rfl

theorem toOctet_ok {b : UInt8} (h : v.toOctet = .ok b) : IsNumber v b.toNat := by
  unfold toOctet at h
  split at h
  · cases h
  · rename_i n hn
    split at h
    · rename_i hrange
      obtain rfl := Except.ok.inj h
      have hoctet : ((n.toNat.toUInt8).toNat : Int) = n := by
        rw [show n.toNat.toUInt8 = UInt8.ofNat n.toNat from rfl, UInt8.toNat_ofNat']
        omega
      rw [hoctet]
      exact isNumber_iff.mpr hn
    · cases h

theorem fit_iff : (∀ f, ¬Unfit v f) ↔ ∃ n, IsNumber v n ∧ 0 ≤ n ∧ n ≤ 255 := by
  constructor
  · intro h
    have hn : ∃ n, IsNumber v n := by
      by_contra hnot
      exact h _ (.kind (not_exists.mp hnot))
    obtain ⟨n, hn⟩ := hn
    refine ⟨n, hn, ?_⟩
    by_contra hrange
    exact h _ (.range hn hrange)
  · rintro ⟨n, hn, hrange⟩ f (⟨hm, hnot⟩ | hnot)
    · exact hnot (hm.unique hn ▸ hrange)
    · exact hnot n hn

theorem decided_toOctet (v : Value) : Decided Unfit id [v] v.toOctet := by
  unfold toOctet
  split
  · rename_i hv
    exact .fail (.kind fun n hn => by simp [isNumber_iff.mp hn] at hv)
  · rename_i n hn
    split
    · rename_i hrange
      refine .pass (fit_iff.mpr ⟨n, isNumber_iff.mpr hn, ?_⟩) nofun
      omega
    · rename_i hrange
      refine .fail (.range (isNumber_iff.mpr hn) ?_)
      omega

theorem decided_toOctets (items : List Value) : Decided Unfit id items (toOctets items) := by
  induction items with
  | nil => exact nofun
  | cons item items ih =>
    rw [toOctets]
    refine (decided_toOctet item).bind fun b => ?_
    rw [bind_pure_comp]
    exact ih.map _

theorem toOctets_ok (h : toOctets items = .ok data) :
    List.Forall₂ (fun item b => IsNumber item b.toNat) items data := by
  induction items generalizing data with
  | nil =>
    cases h
    exact .nil
  | cons item items ih =>
    simp only [toOctets, bind_ok, pure_ok] at h
    obtain ⟨b, hb, rest, hrest, rfl⟩ := h
    exact .cons (toOctet_ok hb) (ih hrest)

theorem IsSequence.toBytes_eq (h : IsSequence x items) : x.toBytes = toOctets items := by
  cases h <;> rfl

theorem IsSequence.toBytes_of_first (h : IsSequence x items) {item : Value}
    (hfirst : FirstFailure Unfit items item f) : x.toBytes = .error f := by
  obtain ⟨f', hf', rfl⟩ := ((decided_toOctets items).error_iff Unfit.unique).mpr ⟨item, hfirst⟩
  rw [h.toBytes_eq, hf', id]

-- ---------------------------------------------------------------------------
-- Outcomes

theorem toBytes_of_representable (h : Representable x) : ∃ s, x.toBytes = .ok s := by
  cases h with
  | text hascii => exact ⟨_, Text.toAscii_of_allAscii hascii⟩
  | bytes form data => exact ⟨data, rfl⟩
  | sequence hseq hall =>
    rw [hseq.toBytes_eq, (decided_toOctets _).ok_iff]
    exact fun item hitem => fit_iff.mpr (hall item hitem)

theorem toBytes_of_offends {k : Fault.Category} (h : Offends x k f) :
    x.toBytes = .error f ∧ f.category = k := by
  cases h with
  | text hs hbefore hne hrun hrest =>
    exact ⟨Text.toAscii_error_iff.mpr ⟨_, _, _, hs, hbefore, hne, hrun, hrest, rfl⟩, rfl⟩
  | number hn => cases hn <;> exact ⟨rfl, rfl⟩
  | null => exact ⟨rfl, rfl⟩
  | header h => exact ⟨rfl, rfl⟩
  | range hseq hfirst => exact ⟨hseq.toBytes_of_first hfirst, rfl⟩
  | kind hseq hfirst => exact ⟨hseq.toBytes_of_first hfirst, rfl⟩

/-- The outcome has its reason in the value. -/
def Explains (x : Value) : Except Fault Bytes → Prop
  | .ok s => Representable x ∧ HasBytes x s
  | .error f => Offends x f.category f

theorem explains_text (s : String) : Explains (text s) (text s).toBytes := by
  cases hs : (text s).toBytes with
  | ok data =>
    obtain ⟨hascii, hdata⟩ := Text.toAscii_ok hs
    exact ⟨.text hascii, .text hdata⟩
  | error f =>
    obtain ⟨before, run, rest, hsplit, hbefore, hne, hrun, hrest, rfl⟩ :=
      Text.toAscii_error_iff.mp hs
    exact .text hsplit hbefore hne hrun hrest

theorem IsSequence.explains (h : IsSequence x items) : Explains x x.toBytes := by
  have hdecided := decided_toOctets items
  rw [h.toBytes_eq]
  cases hitems : toOctets items with
  | ok data =>
    rw [hitems] at hdecided
    exact ⟨.sequence h fun item hitem => fit_iff.mp (hdecided item hitem),
      .sequence h (toOctets_ok hitems)⟩
  | error f =>
    rw [hitems] at hdecided
    obtain ⟨item, hfirst⟩ := hdecided
    rw [id] at hfirst
    cases hfirst.mem.2 with
    | range _ _ => exact .range h hfirst
    | kind _ => exact .kind h hfirst

theorem explains (x : Value) : Explains x x.toBytes := by
  cases x with
  | null => exact .null
  | bool b => exact .number (isNumber_iff.mpr rfl)
  | int n => exact .number (.int n)
  | text s => exact explains_text s
  | bytes form data => exact ⟨.bytes form data, .bytes form data⟩
  | list items => exact (IsSequence.list items).explains
  | tuple items => exact (IsSequence.tuple items).explains
  | header h => exact .header h
  | version variant major minor => exact (IsSequence.version variant major minor).explains
  | dictionary names values => exact (IsSequence.dictionary names values).explains

theorem explains_of_ok {s : Bytes} (h : x.toBytes = .ok s) : Representable x ∧ HasBytes x s := by
  have hx := explains x
  rwa [h] at hx

theorem offends_of_error (h : x.toBytes = .error f) : Offends x f.category f := by
  have hx := explains x
  rwa [h] at hx

-- ---------------------------------------------------------------------------
-- All values

/-- Coercion succeeds exactly on the values that have bytes and gives these, byte strings of every
form unchanged, so its result is its own result again. All other values are refused for what offends
first in them. -/
theorem coercion_exact :
    (∀ x : Value, (∃ s, x.toBytes = .ok s) ↔ Representable x) ∧
    (∀ (x : Value) (s : Bytes), x.toBytes = .ok s →
      HasBytes x s ∧ ∀ form, (bytes form s).toBytes = .ok s) ∧
    ∀ (x : Value) (k : Fault.Category) (f : Fault),
      (x.toBytes = .error f ∧ f.category = k) ↔ Offends x k f := by
  refine ⟨?_, ?_, ?_⟩
  · intro x
    constructor
    · rintro ⟨s, hs⟩
      exact (explains_of_ok hs).1
    · exact toBytes_of_representable
  · intro x s hs
    exact ⟨(explains_of_ok hs).2, fun form => toBytes_bytes form s⟩
  · intro x k f
    constructor
    · rintro ⟨hf, rfl⟩
      exact offends_of_error hf
    · exact toBytes_of_offends

/-- A version of two numbers has two bytes; of a pair of a number that is too large and a text, the
number is at fault. -/
theorem coercion_exact_pairs :
    HasBytes (version .derived (int 65) (bool true)) [65, 1] ∧
      Offends (tuple [int 256, text "a"]) .value .octetRange := by
  obtain ⟨-, hresult, hrefused⟩ := coercion_exact
  exact ⟨(hresult _ _ rfl).1, (hrefused _ _ _).mp ⟨rfl, rfl⟩⟩

end

end Value

end StrictHttp
