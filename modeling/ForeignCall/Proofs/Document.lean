import ForeignCall.Proofs.Literal
import Mathlib.Data.List.Nodup

/-! # Written documents are read back

A document is written line by line, a key, an equals sign and a value.  A value is `Plain` if it is
written in one word or one text: a boolean, a text, or an integer of 64 bits.

* A plain value that stands at the end of its line is read back (`value_valueText`), and so is a key
  in front of an equals sign, bare or quoted (`key_keyText`).
* One line is thus one assignment, and what follows is left (`statement_lineText`); by induction
  over the lines a document is the list of its assignments (`statements_lineTexts`).
* An assignment to a key that is not there yet adds an entry at the end (`add_assign`).

Hence `read_write`: what is written is read as the record of the same entries. -/

namespace ForeignCall.Toml

/-! ### Values -/

/-- A value that is written in one word or one text. -/
def Plain : Form → Prop
  | .bool _ | .text _ => True
  | .integer n => Int64.minValue.toInt ≤ n ∧ n ≤ Int64.maxValue.toInt
  | .float _ | .moment _ | .list _ | .record _ => False

theorem plain_ofNat {n : Nat} (h : n ≤ Int64.maxValue.toInt) : Plain (.ofNat n) := by
  have hleast : Int64.minValue.toInt ≤ 0 := by decide
  exact ⟨Int.le_trans hleast (Int.natCast_nonneg n), h⟩

/-- A word that stands at the end of its line is the value. -/
theorem value_newline {w : List Char} {f : Form} (hne : w ≠ [])
    (hw : ∀ c ∈ w, isWordChar c = true) (hf : wordForm? w = some f) (depth : Nat)
    (r : List Char) : value depth (w ++ '\n' :: r) = some (f, '\n' :: r) := by
  have hword := word_newline hw hf r
  cases w with
  | nil => exact absurd rfl hne
  | cons c cs =>
      have hc : isWordChar c = true := hw c List.mem_cons_self
      have hopen : c ≠ '"' ∧ c ≠ '\x27' ∧ c ≠ '[' ∧ c ≠ '\x7b' := by
        refine ⟨?_, ?_, ?_, ?_⟩ <;> rintro rfl <;> cases hc
      unfold value
      simpa [hopen] using hword

theorem value_valueText {f : Form} (hf : Plain f) (depth : Nat) (r : List Char) :
    value depth (valueText f ++ '\n' :: r) = some (f, '\n' :: r) := by
  cases f with
  | bool b =>
      cases b with
      | false => exact value_newline (List.cons_ne_nil _ _) (List.all_eq_true.mp rfl) rfl depth r
      | true => exact value_newline (List.cons_ne_nil _ _) (List.all_eq_true.mp rfl) rfl depth r
  | integer n =>
      have hne : (Form.integerText n).toList ≠ [] := by
        rw [toList_integerText]
        exact List.append_ne_nil_of_right_ne_nil _ (digits_ne_nil _)
      exact value_newline hne (fun c => isWordChar_of_mem_integerText)
        (wordForm?_of_integer? (integer?_integerText hf)) depth r
  | text s =>
      have htext : text? (quotedText s ++ '\n' :: r) = some (s.toList, '\n' :: r) :=
        text?_quotedText s (by simp)
      have hvalue : value depth (quotedText s ++ '\n' :: r) =
          (text? (quotedText s ++ '\n' :: r)).map fun x => (.text (String.ofList x.1), x.2) := by
        unfold value quotedText
        simp
      rw [valueText, hvalue, htext, Option.map_some, String.ofList_toList]
  | float literal | moment literal | list fs | record es => exact hf.elim

theorem skipBlanks_cons {c : Char} (hc : isBlank c = false) (cs : List Char) :
    skipBlanks (c :: cs) = c :: cs := by
  rw [skipBlanks, List.dropWhile_cons_of_neg (by simp [hc])]

theorem isBlank_of_isWordChar {c : Char} (hc : isWordChar c = true) : isBlank c = false := by
  have hspace : c ≠ ' ' := by
    rintro rfl
    cases hc
  have htab : c ≠ '\t' := by
    rintro rfl
    cases hc
  simp [isBlank, hspace, htab]

theorem skipBlanks_valueText {f : Form} (hf : Plain f) (r : List Char) :
    skipBlanks (' ' :: (valueText f ++ r)) = valueText f ++ r := by
  have hopen : ∃ c cs, valueText f = c :: cs ∧ isBlank c = false := by
    cases f with
    | bool b => cases b <;> exact ⟨_, _, rfl, rfl⟩
    | integer n =>
        rw [valueText]
        cases hn : (Form.integerText n).toList with
        | nil =>
            rw [toList_integerText] at hn
            exact absurd (List.append_eq_nil_iff.mp hn).2 (digits_ne_nil _)
        | cons c cs =>
            have hc : isWordChar c = true :=
              isWordChar_of_mem_integerText (by rw [hn]; exact List.mem_cons_self)
            exact ⟨c, cs, rfl, isBlank_of_isWordChar hc⟩
    | text s => exact ⟨'"', _, rfl, rfl⟩
    | float literal | moment literal | list fs | record es => exact hf.elim
  obtain ⟨c, cs, hv, hc⟩ := hopen
  rw [hv]
  exact skipBlanks_cons hc (cs ++ r)

/-! ### Keys -/

/-- What a written key starts with. -/
def opensKey (c : Char) : Bool := isBareKeyChar c || c = '"'

theorem exists_keyText_eq_cons (k : String) :
    ∃ c cs, keyText k = c :: cs ∧ opensKey c = true := by
  unfold keyText
  split
  · rename_i h
    obtain ⟨hne, hall⟩ := h
    cases hk : k.toList with
    | nil => exact absurd hk hne
    | cons c cs =>
        rw [hk, List.all_cons, Bool.and_eq_true] at hall
        exact ⟨c, cs, rfl, by simp [opensKey, hall.1]⟩
  · exact ⟨'"', _, rfl, rfl⟩

theorem keyName_keyText (k : String) (r : List Char) :
    keyName (keyText k ++ ' ' :: r) = some (k, ' ' :: r) := by
  unfold keyText
  split
  · rename_i h
    obtain ⟨hne, hall⟩ := h
    have hall : ∀ c ∈ k.toList, isBareKeyChar c = true := by simpa using hall
    have htake : (k.toList ++ ' ' :: r).takeWhile isBareKeyChar = k.toList := by
      rw [List.takeWhile_append_of_pos hall]
      exact List.append_nil _
    have hdrop : (k.toList ++ ' ' :: r).dropWhile isBareKeyChar = ' ' :: r := by
      rw [List.dropWhile_append_of_pos hall]
      rfl
    rw [keyName, htake, hdrop]
    split
    · rename_i hnil
      exact absurd hnil hne
    · rw [String.ofList_toList]
  · have htake : (quotedText k ++ ' ' :: r).takeWhile isBareKeyChar = [] := rfl
    rw [keyName, htake]
    simp only [line?_quotedText, Option.map_some, String.ofList_toList]

theorem ne_of_opensKey {c d : Char} (hc : opensKey c = true) (hd : opensKey d = false) : c ≠ d := by
  rintro rfl
  rw [hc] at hd
  cases hd

theorem isBlank_of_opensKey {c : Char} (hc : opensKey c = true) : isBlank c = false := by
  simp [isBlank, ne_of_opensKey hc (d := ' ') rfl, ne_of_opensKey hc (d := '\t') rfl]

theorem key_keyText (n : Nat) (k : String) (r : List Char) :
    key (n + 1) (keyText k ++ ' ' :: '=' :: r) = some ([k], '=' :: r) := by
  obtain ⟨c, cs, hk, hc⟩ := exists_keyText_eq_cons k
  have hblank := isBlank_of_opensKey hc
  have hname := keyName_keyText k ('=' :: r)
  rw [hk, List.cons_append] at hname ⊢
  have hskip : skipBlanks (' ' :: '=' :: r) = '=' :: r := rfl
  simp only [key, skipBlanks_cons hblank, hname, Option.bind_eq_bind, Option.bind_some, hskip]
  rfl

/-! ### Lines -/

/-- The line of a plain value is an assignment. -/
theorem statement_lineText (k : String) {f : Form} (hf : Plain f) (r : List Char) :
    statement (lineText k f ++ r) = some (.assign [k] f, r) := by
  obtain ⟨c, cs, hk, hc⟩ := exists_keyText_eq_cons k
  have hline : lineText k f ++ r =
      keyText k ++ ' ' :: '=' :: ' ' :: (valueText f ++ '\n' :: r) := by
    simp [lineText]
  have hkey := key_keyText 78 k (' ' :: (valueText f ++ '\n' :: r))
  have hskip : skipBlanks (lineText k f ++ r) = lineText k f ++ r := by
    rw [hline, hk, List.cons_append, skipBlanks_cons (isBlank_of_opensKey hc)]
  have hfinish : finishLine? (lineText k f ++ r) = none := by
    have hcomment : c ≠ '#' := ne_of_opensKey hc rfl
    have hnewline : c ≠ '\n' := ne_of_opensKey hc rfl
    have hreturn : c ≠ '\r' := ne_of_opensKey hc rfl
    rw [finishLine?, hskip, hline, hk, List.cons_append]
    simp [skipComment, lineEnd?, newline?, hcomment, hnewline, hreturn]
  have hassign : assignment (value maxDepth) (lineText k f ++ r) =
      some (([k], f), '\n' :: r) := by
    have hblank := skipBlanks_valueText hf ('\n' :: r)
    simp only [assignment, maxDepth, hline, hkey, Option.bind_eq_bind, Option.bind_some, hblank,
      value_valueText hf]
    rfl
  have hend : finishLine? ('\n' :: r) = some r := rfl
  have hhead : c ≠ '[' := ne_of_opensKey hc rfl
  have hrest : lineText k f ++ r =
      c :: (cs ++ ' ' :: '=' :: ' ' :: (valueText f ++ '\n' :: r)) := by
    rw [hline, hk, List.cons_append]
  unfold statement
  rw [hskip]
  split
  · rename_i h
    rw [hrest] at h
    exact absurd (List.cons.inj h).1 hhead
  · rename_i h
    rw [hrest] at h
    exact absurd (List.cons.inj h).1 hhead
  · rw [hfinish, hassign]
    simp only [Option.bind_eq_bind, Option.bind_some, hend]
    rfl

theorem statements_lineTexts {es : List (String × Form)} (hf : ∀ e ∈ es, Plain e.2) {n : Nat}
    (hn : es.length ≤ n) : statements n (es.flatMap fun e => lineText e.1 e.2) =
      some (es.map fun e => .assign [e.1] e.2) := by
  induction es generalizing n with
  | nil => cases n <;> rfl
  | cons e es ih =>
      obtain ⟨k, f⟩ := e
      obtain ⟨m, rfl⟩ : ∃ m, n = m + 1 := ⟨n - 1, by simp only [List.length_cons] at hn; omega⟩
      have hrest := ih (fun e he => hf e (List.mem_cons_of_mem _ he)) (Nat.le_of_succ_le_succ hn)
      have hfirst := statement_lineText k (hf (k, f) List.mem_cons_self)
        (es.flatMap fun e => lineText e.1 e.2)
      obtain ⟨c, cs, hk, -⟩ := exists_keyText_eq_cons k
      rw [List.flatMap_cons]
      rw [lineText, hk] at hfirst ⊢
      simp only [List.cons_append] at hfirst ⊢
      simp only [statements, hfirst, hrest, Option.bind_eq_bind, Option.bind_some]
      rfl

/-! ### Tables -/

/-- A new key is added at the end. -/
theorem adjust_of_not_mem {k : String} {t : Entries} (h : k ∉ t.map (·.1))
    (f : Option Node → Option Node) :
    t.adjust k f = (f none).map fun n => t ++ [(k, n)] := by
  induction t with
  | nil => rfl
  | cons e t ih =>
      obtain ⟨k', n⟩ := e
      obtain ⟨hne, hmem⟩ : k ≠ k' ∧ k ∉ t.map (·.1) := by simpa using h
      rw [Entries.adjust, if_neg (Ne.symm hne), ih hmem, Option.map_map]
      rfl

theorem add_assign {k : String} {t : Entries} (h : k ∉ t.map (·.1)) (f : Form) :
    Draft.add ⟨t, []⟩ (.assign [k] f) = some ⟨t ++ [(k, .value f)], []⟩ := by
  simp [Draft.add, Entries.descend, Entries.assign, adjust_of_not_mem h]

theorem foldlM_add_assign {es : List (String × Form)} {t : Entries}
    (h : (t.map (·.1) ++ es.map (·.1)).Nodup) :
    (es.map fun e => Statement.assign [e.1] e.2).foldlM Draft.add ⟨t, []⟩ =
      some ⟨t ++ es.map fun e => (e.1, .value e.2), []⟩ := by
  induction es generalizing t with
  | nil => simp
  | cons e es ih =>
      obtain ⟨k, f⟩ := e
      have hk : k ∉ t.map (·.1) := fun hk =>
        (List.nodup_append.mp h).2.2 k hk k List.mem_cons_self rfl
      have hrest := @ih (t ++ [(k, .value f)]) (by simpa using h)
      rw [List.map_cons, List.foldlM_cons, add_assign hk]
      simpa using hrest

theorem entryForms_map_value (es : List (String × Form)) :
    entryForms (es.map fun e => (e.1, .value e.2)) = es := by
  induction es with
  | nil => rfl
  | cons e es ih => rw [List.map_cons, entryForms, ih, Node.toForm]

/-! ### Documents -/

theorem unmarked_write (es : List (String × Form)) :
    unmarked (write es) = es.flatMap fun e => lineText e.1 e.2 := by
  rw [unmarked, write, String.toList_ofList]
  split
  · rename_i chars h
    cases es with
    | nil => cases h
    | cons e es =>
        obtain ⟨k, f⟩ := e
        obtain ⟨c, cs, hk, hc⟩ := exists_keyText_eq_cons k
        simp only [List.flatMap_cons, lineText, hk, List.cons_append] at h
        exact absurd (List.cons.inj h).1 (ne_of_opensKey hc rfl)
  · rfl

theorem length_le_lineTexts (es : List (String × Form)) :
    es.length ≤ (es.flatMap fun e => lineText e.1 e.2).length := by
  induction es with
  | nil => simp
  | cons e es ih =>
      have hline : 0 < (lineText e.1 e.2).length := by
        rw [lineText, List.length_append]
        exact Nat.succ_pos _
      rw [List.flatMap_cons, List.length_append, List.length_cons]
      omega

/-- A document with a plain value for each of its keys, and no key twice, is read back. -/
theorem read_write {es : List (String × Form)} (hkeys : (es.map (·.1)).Nodup)
    (hf : ∀ e ∈ es, Plain e.2) : read (write es) = some (.record es) := by
  have hstatements := statements_lineTexts hf (length_le_lineTexts es)
  have hdraft := @foldlM_add_assign es [] (by simpa using hkeys)
  simp only [read, unmarked_write, hstatements, Option.bind_eq_bind, Option.bind_some, Draft.empty,
    hdraft, List.nil_append, entryForms_map_value]
  rfl

end ForeignCall.Toml
