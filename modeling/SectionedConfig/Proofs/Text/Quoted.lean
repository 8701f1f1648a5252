import Mathlib.Data.List.Basic
import SectionedConfig.Proofs.Text.Separators
import SectionedConfig.Text.Quoted

/-!
# Quotations can be told apart

A quotation is written unit by unit: each character is shown as itself or by an escape. Where a unit
starts, the first characters settle how far it goes and which character it stands for, and no unit
starts with the mark. So a quotation is read back in one way only, and its end is found wherever it
stands in a message: two different names never give the same message.

Nothing in a quotation is hidden. The escapes and the digits in them are printable, and a character
that is not printable is written by its code point.
-/

namespace SectionedConfig.Text

/-! ## Conventions -/

/-- How characters are written between two marks. An escape starts with a backslash, and one by code
point has a letter `u` next. -/
structure Convention where
  /-- The characters that stand for themselves. -/
  plain : Char → Prop
  /-- The letters that can follow a backslash, and the characters that they stand for. -/
  letters : List (Char × Char)
  /-- What can follow a backslash and a letter `u`, and the character that it stands for. -/
  coded : List Char → Char → Prop

namespace Convention

variable {convention : Convention} {mark : Char}

/-- A unit and the character that it stands for. -/
inductive Shows (convention : Convention) : List Char → Char → Prop
  | plain {c : Char} (h : convention.plain c) : convention.Shows [c] c
  | letter {letter c : Char} (h : (letter, c) ∈ convention.letters) :
      convention.Shows ['\\', letter] c
  | coded {digits : List Char} {c : Char} (h : convention.coded digits c) :
      convention.Shows ('\\' :: 'u' :: digits) c

/-- Units one after the other, and the text that they stand for. -/
inductive Spells (convention : Convention) : List Char → List Char → Prop
  | nil : convention.Spells [] []
  | cons {unit written text : List Char} {c : Char} (head : convention.Shows unit c)
      (tail : convention.Spells written text) : convention.Spells (unit ++ written) (c :: text)

/-- The convention can be read between two marks: a character is plain only if it starts no escape
and is no mark, each letter stands for one character, and a code can be told from what follows. -/
structure Readable (convention : Convention) (mark : Char) : Prop where
  plain : ∀ c, convention.plain c → c ≠ mark ∧ c ≠ '\\'
  mark : mark ≠ '\\'
  letters : ∀ first ∈ convention.letters, ∀ second ∈ convention.letters,
    first.1 = second.1 → first.2 = second.2
  coding : ∀ entry ∈ convention.letters, entry.1 ≠ 'u'
  coded : ∀ {digits other rest rest' : List Char} {c d : Char}, convention.coded digits c →
    convention.coded other d → digits ++ rest = other ++ rest' → digits = other ∧ c = d

/-- No unit starts with the mark. -/
theorem Shows.exists_cons (h : convention.Readable mark) {unit : List Char} {c : Char}
    (hunit : convention.Shows unit c) : ∃ first rest, unit = first :: rest ∧ first ≠ mark := by
  cases hunit with
  | plain hplain => exact ⟨c, [], rfl, (h.plain c hplain).1⟩
  | letter => exact ⟨'\\', _, rfl, h.mark.symm⟩
  | coded => exact ⟨'\\', _, rfl, h.mark.symm⟩

/-- Two units that the same text starts with are the same. -/
theorem Shows.unique (h : convention.Readable mark) {unit other rest rest' : List Char} {c d : Char}
    (hunit : convention.Shows unit c) (hother : convention.Shows other d)
    (heq : unit ++ rest = other ++ rest') : unit = other ∧ c = d := by
  -- A unit of more than one character starts with a backslash, and what follows it tells which kind
  -- of escape it is.
  cases hunit with
  | plain hplain =>
    cases hother with
    | plain =>
      obtain ⟨rfl, _⟩ := List.cons.inj heq
      exact ⟨rfl, rfl⟩
    | letter => exact absurd (List.cons.inj heq).1 (h.plain c hplain).2
    | coded => exact absurd (List.cons.inj heq).1 (h.plain c hplain).2
  | letter hletter =>
    cases hother with
    | plain hplain => exact absurd (List.cons.inj heq).1.symm (h.plain d hplain).2
    | letter hletter' =>
      obtain ⟨rfl, _⟩ := List.cons.inj (List.cons.inj heq).2
      exact ⟨rfl, h.letters _ hletter _ hletter' rfl⟩
    | coded => exact absurd (List.cons.inj (List.cons.inj heq).2).1 (h.coding _ hletter)
  | coded hcoded =>
    cases hother with
    | plain hplain => exact absurd (List.cons.inj heq).1.symm (h.plain d hplain).2
    | letter hletter =>
      exact absurd (List.cons.inj (List.cons.inj heq).2).1.symm (h.coding _ hletter)
    | coded hcoded' =>
      obtain ⟨rfl, rfl⟩ := h.coded hcoded hcoded' (List.cons.inj (List.cons.inj heq).2).2
      exact ⟨rfl, rfl⟩

/-- Units up to a mark spell one text, and what is after the mark is settled too. -/
theorem Spells.unique (h : convention.Readable mark) {written written' text text' : List Char}
    {rest rest' : List Char} (hspells : convention.Spells written text)
    (hother : convention.Spells written' text')
    (heq : written ++ mark :: rest = written' ++ mark :: rest') : text = text' ∧ rest = rest' := by
  induction hspells generalizing written' text' with
  | nil =>
    cases hother with
    | nil => exact ⟨rfl, (List.cons.inj heq).2⟩
    | cons head =>
      obtain ⟨first, _, rfl, hfirst⟩ := head.exists_cons h
      exact absurd (List.cons.inj heq).1.symm hfirst
  | cons head tail ih =>
    cases hother with
    | nil =>
      obtain ⟨first, _, rfl, hfirst⟩ := head.exists_cons h
      exact absurd (List.cons.inj heq).1 hfirst
    | cons head' tail' =>
      rw [List.append_assoc, List.append_assoc] at heq
      obtain ⟨rfl, rfl⟩ := head.unique h head' heq
      obtain ⟨rfl, hrest⟩ := ih tail' (List.append_cancel_left heq)
      exact ⟨rfl, hrest⟩

theorem spells_flatMap {write : Char → List Char} (h : ∀ c, convention.Shows (write c) c)
    (text : List Char) : convention.Spells (text.flatMap write) text := by
  induction text with
  | nil => exact .nil
  | cons c rest ih => exact .cons (h c) ih

/-- A text that is written by a readable convention can be told from any other one, and from what
follows it. -/
theorem Readable.flatMap_unique (h : convention.Readable mark) {write : Char → List Char}
    (hwrite : ∀ c, convention.Shows (write c) c) {text other rest rest' : List Char}
    (heq : text.flatMap write ++ mark :: rest = other.flatMap write ++ mark :: rest') :
    text = other ∧ rest = rest' :=
  (spells_flatMap hwrite text).unique h (spells_flatMap hwrite other) heq

end Convention

/-! ## Hexadecimal numbers -/

/-- The value of a hexadecimal digit. -/
def hexDigit? (c : Char) : Option Nat :=
  if '0' ≤ c ∧ c ≤ '9' then some (c.toNat - '0'.toNat)
  else if 'a' ≤ c ∧ c ≤ 'f' then some (c.toNat - 'a'.toNat + 10)
  else if 'A' ≤ c ∧ c ≤ 'F' then some (c.toNat - 'A'.toNat + 10)
  else none

/-- The number that hexadecimal digits denote after a number that was read before them. -/
def hexNumberFrom? (start : Nat) (digits : List Char) : Option Nat :=
  digits.foldlM (fun n c ↦ (hexDigit? c).map (16 * n + ·)) start

/-- The number that hexadecimal digits denote. -/
def hexNumber? (digits : List Char) : Option Nat :=
  hexNumberFrom? 0 digits

theorem hexDigit?_digitChar {d : Nat} (h : d < 16) : hexDigit? d.digitChar = some d := by
  have hall : ∀ d < 16, hexDigit? d.digitChar = some d := by decide
  exact hall d h

theorem hexNumber?_toDigits (n : Nat) : hexNumber? (Nat.toDigits 16 n) = some n := by
  induction n using Nat.strongRecOn with
  | ind n ih =>
    by_cases hlt : n < 16
    · simp [Nat.toDigits_of_lt_base hlt, hexNumber?, hexNumberFrom?, hexDigit?_digitChar hlt]
    · have hle : 16 ≤ n := Nat.le_of_not_lt hlt
      have hinit := ih (n / 16) (by omega)
      rw [hexNumber?, hexNumberFrom?] at hinit
      rw [Nat.toDigits_of_base_le (by decide) hle, hexNumber?, hexNumberFrom?, List.foldlM_append,
        hinit]
      simp [hexDigit?_digitChar (Nat.mod_lt n (by decide)), Nat.div_add_mod]

/-- What denotes a number consists of hexadecimal digits. -/
theorem hexDigit?_ne_none {start n : Nat} {digits : List Char} {c : Char}
    (h : hexNumberFrom? start digits = some n) (hc : c ∈ digits) : hexDigit? c ≠ none := by
  induction digits generalizing start with
  | nil => cases hc
  | cons d rest ih =>
    rw [hexNumberFrom?, List.foldlM_cons] at h
    obtain ⟨next, hd, hrest⟩ := Option.bind_eq_some_iff.mp h
    rcases List.mem_cons.mp hc with rfl | hc
    · intro hnone
      simp [hnone] at hd
    · exact ih hrest hc

/-! ## Printable characters -/

/-- The tables of hidden characters are sorted, and no two ranges overlap or touch. -/
theorem isChain_hiddenRanges : hiddenRanges.flatten.IsChain fun range next ↦
    range.1 ≤ range.2 ∧ range.2 + 1 < next.1 := by
  decide +kernel

/-- The characters of ASCII are printable, the control characters excepted. -/
theorem isPrintable_of_ascii {c : Char} (hlow : 0x20 ≤ c.toNat) (hhigh : c.toNat < 0x7F) :
    isPrintable c = true := by
  have hranges : ∀ ranges ∈ hiddenRanges, ∀ range ∈ ranges, range.2 < 0x20 ∨ 0x7F ≤ range.1 := by
    decide +kernel
  rw [isPrintable, Bool.not_eq_true', List.any_eq_false]
  intro ranges hmem hhas
  obtain ⟨range, hrange, hbounds⟩ := List.any_eq_true.mp hhas
  rw [Bool.and_eq_true, decide_eq_true_eq, decide_eq_true_eq] at hbounds
  have hapart := hranges ranges hmem range hrange
  omega

/-- White space is not printable, the space excepted. -/
theorem isPrintable_of_isBlank {c : Char} (h : isBlank c = true) (hne : c ≠ ' ') :
    isPrintable c = false := by
  have hranges : ∀ range ∈ blankRanges, range = (0x20, 0x20) ∨
      ∃ ranges ∈ hiddenRanges, ∃ hidden ∈ ranges, hidden.1 ≤ range.1 ∧ range.2 ≤ hidden.2 := by
    decide +kernel
  obtain ⟨range, hmem, hbounds⟩ := List.any_eq_true.mp h
  rw [Bool.and_eq_true, decide_eq_true_eq, decide_eq_true_eq] at hbounds
  rcases hranges range hmem with rfl | ⟨ranges, hranges, hidden, hhidden, hlow, hhigh⟩
  · have hspace : c.toNat = ' '.toNat := Nat.le_antisymm hbounds.2 hbounds.1
    exact absurd (Char.toNat_inj.mp hspace) hne
  · rw [isPrintable, Bool.not_eq_false', List.any_eq_true]
    refine ⟨ranges, hranges, List.any_eq_true.mpr ⟨hidden, hhidden, ?_⟩⟩
    rw [Bool.and_eq_true, decide_eq_true_eq, decide_eq_true_eq]
    omega

theorem isPrintable_of_hexDigit? {c : Char} (h : hexDigit? c ≠ none) : isPrintable c = true := by
  have hbounds : 0x20 ≤ c.toNat ∧ c.toNat < 0x7F := by
    simp only [hexDigit?, Char.le_def, UInt32.le_iff_toNat_le] at h
    change 0x20 ≤ c.val.toNat ∧ c.val.toNat < 0x7F
    grind
  exact isPrintable_of_ascii hbounds.1 hbounds.2

/-! ## Quotations -/

section Quotation

variable {mark : Char}

/-- How messages write characters between two marks. -/
def quoting (mark : Char) : Convention where
  plain c := c ≠ mark ∧ c ≠ '\\'
  letters := [('t', '\t'), ('n', '\n'), ('r', '\r'), ('0', '\x00'), ('\\', '\\'), (mark, mark)]
  coded written c := ∃ digits, written = '{' :: digits ++ ['}'] ∧ hexNumber? digits = some c.toNat

theorem shows_escape (mark c : Char) : (quoting mark).Shows (escape mark c) c := by
  unfold escape
  split_ifs with htab hfeed hreturn hnull hmark hprintable
  · exact .letter (by simp [quoting, htab])
  · exact .letter (by simp [quoting, hfeed])
  · exact .letter (by simp [quoting, hreturn])
  · exact .letter (by simp [quoting, hnull])
  · rcases hmark with rfl | rfl
    · exact .letter (by simp [quoting])
    · exact .letter (by simp [quoting])
  · exact .plain (not_or.mp hmark).symm
  · exact .coded ⟨_, rfl, hexNumber?_toDigits c.toNat⟩

/-- The braces around a code point show where it ends. -/
theorem coded_unique {digits other rest rest' : List Char} {c d : Char}
    (h : (quoting mark).coded digits c) (hother : (quoting mark).coded other d)
    (heq : digits ++ rest = other ++ rest') : digits = other ∧ c = d := by
  obtain ⟨inside, rfl, hvalue⟩ := h
  obtain ⟨inside', rfl, hvalue'⟩ := hother
  have hclosing : inside ++ '}' :: rest = inside' ++ '}' :: rest' := by simpa using heq
  have hfirst : cutFirst '}' (inside ++ '}' :: rest) = some (inside, rest) :=
    cutFirst_append (fun hmem ↦ hexDigit?_ne_none hvalue hmem rfl) rest
  have hsecond : cutFirst '}' (inside' ++ '}' :: rest') = some (inside', rest') :=
    cutFirst_append (fun hmem ↦ hexDigit?_ne_none hvalue' hmem rfl) rest'
  rw [hclosing, hsecond] at hfirst
  obtain ⟨rfl, _⟩ := Prod.mk.inj (Option.some.inj hfirst)
  exact ⟨rfl, Char.toNat_inj.mp (Option.some.inj (hvalue.symm.trans hvalue'))⟩

theorem readable_quoting (h : mark = '"' ∨ mark = '\x27') : (quoting mark).Readable mark := by
  rcases h with rfl | rfl
  · exact ⟨fun _ ↦ id, by decide, by decide, by decide, coded_unique⟩
  · exact ⟨fun _ ↦ id, by decide, by decide, by decide, coded_unique⟩

/-- A quoted text at the start of a message can be told from the message. -/
theorem quoted_unique {text other rest rest' : String}
    (heq : quoted text ++ rest = quoted other ++ rest') : text = other ∧ rest = rest' := by
  have hunits : text.toList.flatMap (escape '"') ++ '"' :: rest.toList =
      other.toList.flatMap (escape '"') ++ '"' :: rest'.toList := by
    simpa [quoted, quotedBy] using congrArg String.toList heq
  obtain ⟨htext, hrest⟩ := (readable_quoting (.inl rfl)).flatMap_unique (shows_escape '"') hunits
  exact ⟨String.toList_inj.mp htext, String.toList_inj.mp hrest⟩

theorem quotedChar_unique {c d : Char} {rest rest' : String}
    (heq : quotedChar c ++ rest = quotedChar d ++ rest') : c = d ∧ rest = rest' := by
  have hunits : [c].flatMap (escape '\x27') ++ '\x27' :: rest.toList =
      [d].flatMap (escape '\x27') ++ '\x27' :: rest'.toList := by
    simpa [quotedChar, quotedBy] using congrArg String.toList heq
  obtain ⟨hchar, hrest⟩ :=
    (readable_quoting (.inr rfl)).flatMap_unique (shows_escape '\x27') hunits
  exact ⟨(List.cons.inj hchar).1, String.toList_inj.mp hrest⟩

/-- A backslash, a quotation mark, and an accent without a letter. -/
example : quoted "a\\\"\u0301" = "\"a\\\\\\\"\\u\x7b301\x7d\"" := by
  decide +kernel

/-! ## Nothing is hidden -/

theorem isPrintable_of_mem_escape (hmark : isPrintable mark = true) {c d : Char}
    (h : d ∈ escape mark c) : isPrintable d = true := by
  have hascii : ∀ d ∈ ['\\', 't', 'n', 'r', '0', 'u', '{', '}'], isPrintable d = true :=
    List.all_eq_true.mp (by decide +kernel)
  unfold escape at h
  split_ifs at h with htab hfeed hreturn hnull hshown hprintable
  · exact hascii d (by grind)
  · exact hascii d (by grind)
  · exact hascii d (by grind)
  · exact hascii d (by grind)
  · grind
  · rwa [List.mem_singleton.mp h]
  · simp only [List.cons_append, List.nil_append, List.mem_cons, List.mem_append,
      List.not_mem_nil, or_false] at h
    by_cases hdigit : d ∈ Nat.toDigits 16 c.toNat
    · exact isPrintable_of_hexDigit? (hexDigit?_ne_none (hexNumber?_toDigits c.toNat) hdigit)
    · exact hascii d (by grind)

/-- Every character of a quotation is printable, the ones of its text whatever they are. -/
theorem isPrintable_of_mem_quotedBy (hmark : isPrintable mark = true) {text : List Char} {d : Char}
    (h : d ∈ quotedBy mark text) : isPrintable d = true := by
  have hunits : ∀ d ∈ text.flatMap (escape mark), isPrintable d = true := by
    intro d hd
    obtain ⟨c, _, hd⟩ := List.mem_flatMap.mp hd
    exact isPrintable_of_mem_escape hmark hd
  rw [quotedBy, List.mem_append, List.mem_cons, List.mem_singleton] at h
  rcases h with (rfl | hd) | rfl
  · exact hmark
  · exact hunits d hd
  · exact hmark

/-- Only the printable characters that start no escape and end no quotation show themselves. -/
theorem escape_eq_singleton_iff {c : Char} :
    escape mark c = [c] ↔ isPrintable c = true ∧ c ≠ '\\' ∧ c ≠ mark := by
  constructor
  · intro h
    unfold escape at h
    split_ifs at h with htab hfeed hreturn hnull hshown hprintable
    · cases h
    · cases h
    · cases h
    · cases h
    · cases h
    · exact ⟨hprintable, not_or.mp hshown⟩
    · cases h
  · rintro ⟨hprintable, hshown⟩
    have hhidden : ∀ d ∈ ['\t', '\n', '\r', '\x00'], ¬ isPrintable d = true :=
      List.any_eq_false.mp (by decide +kernel)
    have hne {d : Char} (hd : d ∈ ['\t', '\n', '\r', '\x00']) : c ≠ d := by
      rintro rfl
      exact hhidden c hd hprintable
    rw [escape, if_neg (hne (by simp)), if_neg (hne (by simp)), if_neg (hne (by simp)),
      if_neg (hne (by simp)), if_neg (not_or.mpr hshown), if_pos hprintable]

theorem length_escape_pos (mark c : Char) : 0 < (escape mark c).length := by
  unfold escape
  split_ifs <;> simp

theorem length_le_length_flatMap_escape (mark : Char) (text : List Char) :
    text.length ≤ (text.flatMap (escape mark)).length := by
  induction text with
  | nil => exact Nat.zero_le _
  | cons c rest ih =>
    have hunit := length_escape_pos mark c
    rw [List.flatMap_cons, List.length_cons, List.length_append]
    omega

theorem flatMap_escape_eq_self_iff {text : List Char} :
    text.flatMap (escape mark) = text ↔ ∀ c ∈ text, escape mark c = [c] := by
  induction text with
  | nil => simp
  | cons c rest ih =>
    rw [List.flatMap_cons, List.forall_mem_cons]
    constructor
    · -- No unit is empty, so the first one has the length of what it shows.
      intro h
      have hunit := length_escape_pos mark c
      have hrest := length_le_length_flatMap_escape mark rest
      have hlength := congrArg List.length h
      rw [List.length_append, List.length_cons] at hlength
      have hsplit : escape mark c ++ rest.flatMap (escape mark) = [c] ++ rest := h
      obtain ⟨hshown, htail⟩ := List.append_inj hsplit (by rw [List.length_singleton]; omega)
      exact ⟨hshown, ih.mp htail⟩
    · rintro ⟨hshown, htail⟩
      rw [hshown, ih.mpr htail]
      rfl

/-- A text stands unchanged between the marks if and only if each of its characters shows itself. -/
theorem quotedBy_eq_iff {text : List Char} :
    quotedBy mark text = mark :: text ++ [mark] ↔
      ∀ c ∈ text, isPrintable c = true ∧ c ≠ '\\' ∧ c ≠ mark := by
  calc
    quotedBy mark text = mark :: text ++ [mark] ↔ text.flatMap (escape mark) = text := by
      simp [quotedBy]
    _ ↔ ∀ c ∈ text, isPrintable c = true ∧ c ≠ '\\' ∧ c ≠ mark := by
      simp only [flatMap_escape_eq_self_iff, escape_eq_singleton_iff]

end Quotation

end SectionedConfig.Text
