import ForeignCall.Toml.Document
import ForeignCall.Toml.Line

/-! # Written texts and words are read back

A text is written between two marks, and characters that could be mistaken are escaped.  The reader
is a machine over characters: one written character, which may be six characters long, takes it from
its resting state back to it and adds just that character (`Quoting.readFrom_escapeText`), and so
the mark behind the last one is the first mark that it sees (`Quoting.readFrom_written`).  Texts of
any characters are read back (`text?_quotedText`).

An integer is written in decimal digits.  They are the digits of a number without a leading zero
(`digits_ne_zero_cons`), so the word is no number in another base, and it stands for the integer if
that fits 64 bits (`integer?_integerText`).  A word ends at the end of its line (`word_newline`). -/

namespace ForeignCall.Toml

/-! ### Quoted text -/

namespace Quoting

variable {q : Quoting} {p next : Pending} {c : Char} {added : List Char}

/-- Nothing closes a text but marks. -/
theorem readFrom_cons (hp : ∀ n, p ≠ .marks n) (hs : q.step p c = some (added, next))
    (cs : List Char) :
    q.readFrom p (c :: cs) = (q.readFrom next cs).map fun x => (added ++ x.1, x.2) := by
  cases p with
  | marks n => exact absurd rfl (hp n)
  | nothing | carriageReturn | escape | code left value | fold ended | foldReturn =>
      simp only [readFrom, hs, Option.bind_eq_bind, Option.bind_some]
      cases q.readFrom next cs <;> rfl

theorem readFrom_escape {e : Char} (h : basic.step .escape c = some ([e], .nothing))
    (cs : List Char) :
    basic.readFrom .nothing ('\\' :: c :: cs) =
      (basic.readFrom .nothing cs).map fun x => (e :: x.1, x.2) := by
  have hslash : basic.step .nothing '\\' = some ([], .escape) := rfl
  rw [readFrom_cons (by nofun) hslash, readFrom_cons (by nofun) h, Option.map_map]
  rfl

theorem step_code {d : Nat} (hd : d < 16) {left value : Nat} (hl : 2 ≤ left) :
    q.step (.code left value) (digitChar d) = some ([], .code (left - 1) (16 * value + d)) := by
  have hhex : ∀ d < 16, isHexDigit (digitChar d) = true := by decide
  simp only [step, hhex d hd, if_true, digitValue_digitChar hd, if_neg (Nat.not_le.mpr hl)]

theorem step_code_one {d : Nat} (hd : d < 16) (value : Nat) :
    q.step (.code 1 value) (digitChar d) =
      (scalar? (16 * value + d)).map fun e => ([e], .nothing) := by
  have hhex : ∀ d < 16, isHexDigit (digitChar d) = true := by decide
  simp only [step, hhex d hd, if_true, digitValue_digitChar hd, Nat.le_refl]

theorem readFrom_code (hc : c.toNat < 256) (cs : List Char) :
    basic.readFrom .nothing (['\\', 'u', '0', '0'] ++ Form.hexPair c.toNat ++ cs) =
      (basic.readFrom .nothing cs).map fun x => (c :: x.1, x.2) := by
  have hhigh : c.toNat / 16 % 16 < 16 := Nat.mod_lt _ (by decide)
  have hlow : c.toNat % 16 < 16 := Nat.mod_lt _ (by decide)
  have hslash : basic.step .nothing '\\' = some ([], .escape) := rfl
  have hu : basic.step .escape 'u' = some ([], .code 4 0) := rfl
  have hfirst : basic.step (.code 4 0) '0' = some ([], .code 3 0) := rfl
  have hsecond : basic.step (.code 3 0) '0' = some ([], .code 2 0) := rfl
  have hthird : basic.step (.code 2 0) (digitChar (c.toNat / 16 % 16)) =
      some ([], .code 1 (c.toNat / 16 % 16)) := by
    rw [step_code hhigh (Nat.le_refl 2), Nat.mul_zero, Nat.zero_add]
  have hlast : basic.step (.code 1 (c.toNat / 16 % 16)) (digitChar (c.toNat % 16)) =
      some ([c], .nothing) := by
    have hvalue : 16 * (c.toNat / 16 % 16) + c.toNat % 16 = c.toNat := by omega
    have hvalid : c.toNat.isValidChar := c.valid
    rw [step_code_one hlow, hvalue, scalar?, if_pos hvalid, Char.ofNat_toNat]
    rfl
  simp only [Form.hexPair, List.cons_append, List.nil_append]
  rw [readFrom_cons (by nofun) hslash, readFrom_cons (by nofun) hu,
    readFrom_cons (by nofun) hfirst, readFrom_cons (by nofun) hsecond,
    readFrom_cons (by nofun) hthird, readFrom_cons (by nofun) hlast]
  simp only [Option.map_map]
  rfl

theorem readFrom_plain (hmark : c ≠ '"') (hslash : c ≠ '\\') (hc : isPrintable c = true)
    (cs : List Char) :
    basic.readFrom .nothing (c :: cs) =
      (basic.readFrom .nothing cs).map fun x => (c :: x.1, x.2) := by
  have hstep : basic.step .nothing c = some ([c], .nothing) := by
    simp [step, begin?, basic, hmark, hslash, hc]
  rw [readFrom_cons (by nofun) hstep]
  rfl

theorem isPrintable_of_le (h : 32 ≤ c.toNat) (hd : c.toNat ≠ 127) : isPrintable c = true := by
  simp [isPrintable, h, hd]

/-- A written character is read back. -/
theorem readFrom_escapeText (c : Char) (cs : List Char) :
    basic.readFrom .nothing (escapeText c ++ cs) =
      (basic.readFrom .nothing cs).map fun x => (c :: x.1, x.2) := by
  unfold escapeText
  split
  · rename_i hd
    have hpair : Form.hexPair c.toNat = ['7', 'f'] := by rw [hd]; rfl
    have h := readFrom_code (c := c) (by omega) cs
    rwa [hpair] at h
  rename_i hd
  unfold Form.escapeChar
  split
  · rename_i h
    subst h
    exact readFrom_escape rfl cs
  rename_i hmark
  split
  · rename_i h
    subst h
    exact readFrom_escape rfl cs
  rename_i hslash
  split
  · rename_i h
    subst h
    exact readFrom_escape rfl cs
  split
  · rename_i h
    subst h
    exact readFrom_escape rfl cs
  split
  · rename_i h
    subst h
    exact readFrom_escape rfl cs
  split
  · rename_i h
    obtain rfl : c = '\x08' := Char.toNat_inj.mp h
    exact readFrom_escape rfl cs
  split
  · rename_i h
    obtain rfl : c = '\x0c' := Char.toNat_inj.mp h
    exact readFrom_escape rfl cs
  split
  · exact readFrom_code (by omega) cs
  · rename_i hlow
    exact readFrom_plain hmark hslash (isPrintable_of_le (by omega) hd) cs

/-- The first mark closes the text, whatever follows. -/
theorem readFrom_mark (r : List Char) : basic.readFrom .nothing ('"' :: r) = some ([], r) := by
  have hmark : basic.step .nothing '"' = some ([], .marks 1) := rfl
  rw [readFrom_cons (by nofun) hmark]
  cases r with
  | nil => rfl
  | cons c cs => rfl

theorem readFrom_written (cs r : List Char) :
    basic.readFrom .nothing (cs.flatMap escapeText ++ '"' :: r) = some (cs, r) := by
  induction cs with
  | nil => exact readFrom_mark r
  | cons c cs ih =>
      rw [List.flatMap_cons, List.append_assoc, readFrom_escapeText, ih]
      rfl

end Quoting

theorem line?_quotedText (s : String) (r : List Char) :
    line? (quotedText s ++ r) = some (s.toList, r) := by
  have h := Quoting.readFrom_written s.toList r
  simp only [quotedText, List.cons_append, List.append_assoc, List.nil_append]
  show Quoting.basic.read (s.toList.flatMap escapeText ++ '"' :: r) = some (s.toList, r)
  exact h

/-- Two marks in a row are an empty text if no third one follows. -/
theorem text?_quotedText (s : String) {r : List Char} (hr : r.head? ≠ some '"') :
    text? (quotedText s ++ r) = some (s.toList, r) := by
  rw [← line?_quotedText]
  unfold text?
  split
  · rename_i cs h
    simp only [quotedText, List.cons_append, List.append_assoc, List.nil_append,
      List.cons.injEq, true_and] at h
    have hread := Quoting.readFrom_written s.toList r
    rw [h, Quoting.readFrom_mark, Option.some.injEq, Prod.mk.injEq] at hread
    exact absurd (by rw [← hread.2]; rfl) hr
  · rename_i cs h
    cases h
  · rfl

/-! ### Numbers -/

variable {w : List Char} {n : Nat}

theorem isDigit_digitChar {d : Nat} (h : d < 10) : (digitChar d).isDigit = true := by
  have all : ∀ d < 10, (digitChar d).isDigit = true := by decide
  exact all d h

theorem isDigit_of_mem_digits {c : Char} (h : c ∈ digits 10 n) : c.isDigit = true := by
  fun_induction digits 10 n with
  | case1 n hn ih =>
      rcases List.mem_append.mp h with h | h
      · exact ih h
      · rw [List.mem_singleton.mp h]
        exact isDigit_digitChar (Nat.mod_lt n (by decide))
  | case2 n hn =>
      rw [List.mem_singleton.mp h]
      exact isDigit_digitChar (by omega)

theorem exists_digits_eq_cons (hn : n ≠ 0) : ∃ d ds, digits 10 n = d :: ds ∧ d ≠ '0' := by
  fun_induction digits 10 n with
  | case1 n h ih =>
      obtain ⟨d, ds, hds, hd⟩ := ih (by omega)
      exact ⟨d, ds ++ [digitChar (n % 10)], by rw [hds, List.cons_append], hd⟩
  | case2 n h =>
      have all : ∀ d < 10, d ≠ 0 → digitChar d ≠ '0' := by decide
      exact ⟨digitChar n, [], rfl, all n (by omega) hn⟩

/-- Only the number zero is written with a leading zero, and it has no further digit. -/
theorem digits_ne_zero_cons (n : Nat) (c : Char) (ds : List Char) :
    digits 10 n ≠ '0' :: c :: ds := by
  intro h
  by_cases hn : n = 0
  · subst hn
    rw [digits] at h
    simp at h
  · obtain ⟨d, ds', hds, hd⟩ := exists_digits_eq_cons hn
    rw [hds] at h
    exact hd (List.cons.inj h).1

theorem digits_ne_nil (n : Nat) : digits 10 n ≠ [] := by
  rw [digits]
  split <;> simp

/-- Digits without underscores are all there is. -/
theorem ungroupedFrom_eq {isDigit : Char → Bool} (hw : ∀ c ∈ w, isDigit c = true) :
    ungroupedFrom isDigit true w = some w := by
  induction w with
  | nil => rfl
  | cons c w ih =>
      have hrest := ih fun d hd => hw d (List.mem_cons_of_mem c hd)
      rw [ungroupedFrom, if_pos (hw c List.mem_cons_self), hrest]
      rfl

theorem ungrouped?_digits (n : Nat) :
    ungrouped? Char.isDigit (digits 10 n) = some (digits 10 n) := by
  have hall : ∀ c ∈ digits 10 n, c.isDigit = true := fun c => isDigit_of_mem_digits
  cases hds : digits 10 n with
  | nil => exact absurd hds (digits_ne_nil n)
  | cons d ds =>
      rw [hds] at hall
      have hrest := ungroupedFrom_eq fun c hc => hall c (List.mem_cons_of_mem d hc)
      rw [ungrouped?, ungroupedFrom, if_pos (hall d List.mem_cons_self), hrest]
      rfl

theorem wholeDigits?_digits (n : Nat) : wholeDigits? (digits 10 n) = some (digits 10 n) := by
  rw [wholeDigits?, ungrouped?_digits]
  split
  · rename_i c ds h
    exact absurd (Option.some.inj h) (digits_ne_zero_cons n c ds)
  · rfl

/-- A word that does not start with a zero and another character is a decimal. -/
theorem integer?_eq (hw : ∀ c ds, w ≠ '0' :: c :: ds) :
    integer? w = (wholeDigits? (splitSign w).2).bind fun ds =>
      inRange? (if (splitSign w).1 then -(digitsValue 10 ds : Int) else digitsValue 10 ds) := by
  unfold integer?
  split
  · exact absurd rfl (hw _ _)
  · exact absurd rfl (hw _ _)
  · exact absurd rfl (hw _ _)
  · rfl

theorem splitSign_digits (n : Nat) : splitSign (digits 10 n) = (false, digits 10 n) := by
  unfold splitSign
  split
  · rename_i w h
    have hd : Char.isDigit '-' = true := isDigit_of_mem_digits (by rw [h]; exact List.mem_cons_self)
    exact absurd hd (by decide)
  · rename_i w h
    have hd : Char.isDigit '+' = true := isDigit_of_mem_digits (by rw [h]; exact List.mem_cons_self)
    exact absurd hd (by decide)
  · rfl

theorem toList_integerText (n : Int) : (Form.integerText n).toList =
    (if n < 0 then ['-'] else []) ++ digits 10 n.natAbs := by
  unfold Form.integerText
  split
  · simp [decimal]
  · simp [decimal]

theorem integer?_integerText {n : Int}
    (h : Int64.minValue.toInt ≤ n ∧ n ≤ Int64.maxValue.toInt) :
    integer? (Form.integerText n).toList = some n := by
  have hvalue := digitsValue_digits (show 2 ≤ 10 by decide) (show 10 ≤ 16 by decide) n.natAbs
  rw [toList_integerText]
  by_cases hn : n < 0
  · have habs : -(n.natAbs : Int) = n := by omega
    rw [if_pos hn, List.singleton_append, integer?_eq (by simp), splitSign, wholeDigits?_digits,
      Option.bind_some, hvalue, if_pos rfl, habs, inRange?, if_pos h]
  · have habs : (n.natAbs : Int) = n := by omega
    rw [if_neg hn, List.nil_append, integer?_eq (digits_ne_zero_cons _), splitSign_digits,
      wholeDigits?_digits, Option.bind_some, hvalue, if_neg Bool.false_ne_true, habs, inRange?,
      if_pos h]

/-! ### Words -/

theorem isWordChar_of_isDigit {c : Char} (h : c.isDigit = true) : isWordChar c = true := by
  simp [isWordChar, Char.isAlphanum, h]

theorem isWordChar_of_mem_integerText {n : Int} {c : Char} (h : c ∈ (Form.integerText n).toList) :
    isWordChar c = true := by
  rw [toList_integerText] at h
  rcases List.mem_append.mp h with h | h
  · have hc : c = '-' := by
      split at h
      · exact List.mem_singleton.mp h
      · cases h
    rw [hc]
    rfl
  · exact isWordChar_of_isDigit (isDigit_of_mem_digits h)

/-- An integer is no other word. -/
theorem wordForm?_of_integer? {n : Int} (h : integer? w = some n) :
    wordForm? w = some (.integer n) := by
  have htrue : w ≠ ['t', 'r', 'u', 'e'] := by
    rintro rfl
    cases h
  have hfalse : w ≠ ['f', 'a', 'l', 's', 'e'] := by
    rintro rfl
    cases h
  rw [wordForm?, if_neg htrue, if_neg hfalse, h]

theorem splitWord_newline (hw : ∀ c ∈ w, isWordChar c = true) (r : List Char) :
    splitWord (w ++ '\n' :: r) = (w, '\n' :: r) := by
  have htake : (w ++ '\n' :: r).takeWhile isWordChar = w := by
    rw [List.takeWhile_append_of_pos hw]
    exact List.append_nil w
  have hdrop : (w ++ '\n' :: r).dropWhile isWordChar = '\n' :: r := by
    rw [List.dropWhile_append_of_pos hw]
    rfl
  simp [splitWord, htake, hdrop]

theorem word_newline {f : Form} (hw : ∀ c ∈ w, isWordChar c = true) (hf : wordForm? w = some f)
    (r : List Char) : word (w ++ '\n' :: r) = some (f, '\n' :: r) := by
  rw [word, splitWord_newline hw, hf]
  rfl

end ForeignCall.Toml
