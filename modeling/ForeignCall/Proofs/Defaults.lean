import ForeignCall.Proofs.Document
import ForeignCall.Proofs.Readback
import ForeignCall.Signature.Text
import Mathlib.Data.List.Nodup
import Mathlib.Logic.Relation

/-! # Written signatures and their defaults

A signature is written as a record in which what is missing has no entry.  The reader fills in a
default for most of what it does not find, so that a description may be shorter than the written
form.

* What is written is read back (`TypeSpec.ofForm_toForm`, `Signature.ofForm_toForm`).
* A field is idle if it says what holds without it (`TypeSpec.Idle`, `Signature.Idle`).  One step of
  shortening leaves an idle field out, of the signature or of one of its types (`Form.Shortens`).  A
  list that stands for a record gives its fields in order, and there only the last can be left out.
* Readers find fields by name, so all that counts is what a step does to each field
  (`Form.FieldShortens`): nothing, take away an idle one, or shorten its value.  No reader of a
  single field notices, and so no step changes what is read (`Signature.ofForm_eq_of_shortens`).

`form_round_trip` puts the two together, for any number of steps. -/

namespace ForeignCall

namespace Form

variable {α : Type} {names : List String} {name : String} {es es' : List (String × Form)}

/-! ### Entries by name -/

@[simp] theorem field?_nil (name : String) : field? name [] = none := rfl

@[simp] theorem field?_append (name : String) (es fs : List (String × Form)) :
    field? name (es ++ fs) = (field? name fs).or (field? name es) := by
  induction es with
  | nil => simp [field?]
  | cons e es ih =>
      obtain ⟨k, v⟩ := e
      rw [List.cons_append, field?, field?, ih]
      cases field? name fs with
      | some w => rfl
      | none => rfl

@[simp] theorem field?_cons (name k : String) (v : Form) (es : List (String × Form)) :
    field? name ((k, v) :: es) = (field? name es).or (if k = name then some v else none) := by
  rw [field?]
  cases field? name es with
  | some w => rfl
  | none => rfl

@[simp] theorem field?_entryOf? (name k : String) (write : α → Form) (o : Option α) :
    field? name (entryOf? k write o) = if k = name then o.map write else none := by
  cases o with
  | none => simp [entryOf?]
  | some a => simp [entryOf?]

theorem field?_filter (name k : String) (es : List (String × Form)) :
    field? name (es.filter (·.1 ≠ k)) = if name = k then none else field? name es := by
  induction es with
  | nil => simp [field?]
  | cons e es ih =>
      obtain ⟨k', v⟩ := e
      by_cases hk : k' = k
      · rw [List.filter_cons_of_neg (by simpa using hk), ih, field?_cons]
        by_cases hn : name = k
        · simp [hn]
        · simp [hn, hk, Ne.symm hn]
      · rw [List.filter_cons_of_pos (by simpa using hk), field?_cons, ih, field?_cons]
        by_cases hn : name = k
        · simp [hn, hk]
        · simp [hn]

theorem field?_eq_none (h : ∀ v, (name, v) ∉ es) : field? name es = none := by
  induction es with
  | nil => rfl
  | cons e es ih =>
      obtain ⟨k, v⟩ := e
      have hk : k ≠ name := fun hk => h v (by simp [hk])
      rw [field?_cons, ih fun w hw => h w (List.mem_cons_of_mem _ hw), if_neg hk]
      rfl

/-! ### Single fields that were written -/

@[simp] theorem uint64?_ofNat (n : UInt64) : (ofNat n.toNat).uint64? = some n := by
  simp [uint64?, below?_ofNat n.toNat_lt_size]

theorem defaulted_eq_elim (read : Form → Option α) (d : α) :
    defaulted es name read d = (field? name es).elim (some d) read := by
  unfold defaulted
  cases field? name es <;> rfl

theorem optional_eq_elim (read : Form → Option α) :
    optional es name read = (field? name es).elim (some none) fun f => (read f).map some := by
  unfold optional
  cases field? name es <;> rfl

theorem defaulted_eq {read : Form → Option α} {d : α} {f : Form} (h : field? name es = some f) :
    defaulted es name read d = read f := by
  rw [defaulted_eq_elim, h, Option.elim_some]

theorem optional_eq {write : α → Form} {read : Form → Option α} {o : Option α}
    (h : field? name es = o.map write) (hread : ∀ a, read (write a) = some a) :
    optional es name read = some o := by
  rw [optional_eq_elim, h]
  cases o with
  | none => rfl
  | some a => simp [hread]

/-! ### Shorter descriptions -/

/-- One step of shortening a record with the given field names: an idle field is left out, or the
value of a field is shortened.  In a list only the last item can be left out. -/
inductive Shortens (names : List String) (idle : String → Form → Prop)
    (inner : String → Form → Form → Prop) : Form → Form → Prop
  | leave {es : List (String × Form)} (name : String) {f : Form} :
      field? name es = some f → idle name f →
      Shortens names idle inner (record es) (record (es.filter (·.1 ≠ name)))
  | leaveLast {items : List Form} {name : String} {f : Form} :
      names[items.length]? = some name → idle name f →
      Shortens names idle inner (list (items ++ [f])) (list items)
  | within (front back : List (String × Form)) {name : String} {f f' : Form} :
      inner name f f' →
      Shortens names idle inner (record (front ++ (name, f) :: back))
        (record (front ++ (name, f') :: back))
  | withinItem (front back : List Form) {name : String} {f f' : Form} :
      names[front.length]? = some name → inner name f f' →
      Shortens names idle inner (list (front ++ f :: back)) (list (front ++ f' :: back))

/-- What a step does to one field. -/
inductive FieldShortens (idle : Form → Prop) (inner : Form → Form → Prop) :
    Option Form → Option Form → Prop
  | same {o : Option Form} : FieldShortens idle inner o o
  | left {f : Form} : idle f → FieldShortens idle inner (some f) none
  | within {f f' : Form} : inner f f' → FieldShortens idle inner (some f) (some f')

/-- An item of a list is the entry of the name at its place. -/
theorem zip_append_cons {front back : List Form} {f : Form}
    (h : names[front.length]? = some name) :
    names.zip (front ++ f :: back) =
      names.zip front ++ (name, f) :: (names.drop (front.length + 1)).zip back := by
  induction front generalizing names with
  | nil =>
      cases names with
      | nil => simp at h
      | cons n names =>
          obtain rfl : n = name := by simpa using h
          simp
  | cons g front ih =>
      cases names with
      | nil => simp at h
      | cons n names =>
          have h : names[front.length]? = some name := by simpa using h
          simp [ih h]

theorem field?_zip_eq_none {items : List Form} (hn : names.Nodup)
    (h : names[items.length]? = some name) : field? name (names.zip items) = none := by
  apply field?_eq_none
  intro v hv
  obtain ⟨i, hi, he⟩ := List.mem_iff_getElem.mp hv
  obtain ⟨hlt, hname⟩ := List.getElem?_eq_some_iff.mp h
  rw [List.getElem_zip, Prod.mk.injEq] at he
  rw [List.length_zip] at hi
  have hsame : names[i] = names[items.length] := he.1.trans hname.symm
  have := (hn.getElem_inj_iff).mp hsame
  omega

theorem fieldShortens_within {idle : String → Form → Prop} {inner : String → Form → Form → Prop}
    {f f' : Form} (h : inner name f f') (front back : List (String × Form)) (k : String) :
    FieldShortens (idle k) (inner k) (field? k (front ++ (name, f) :: back))
      (field? k (front ++ (name, f') :: back)) := by
  simp only [field?_append, field?_cons]
  cases field? k back with
  | some w => exact .same
  | none =>
      by_cases hk : name = k
      · subst hk
        simp only [if_true, Option.none_or, Option.some_or]
        exact .within h
      · simp only [if_neg hk]
        exact .same

/-- A step leaves a description unreadable, or shortens each of its fields. -/
theorem Shortens.fields {idle : String → Form → Prop} {inner : String → Form → Form → Prop}
    {f f' : Form} (h : Shortens names idle inner f f') (hn : names.Nodup)
    (hidle : ∀ name f, idle name f → name ∈ names) :
    (f.entries? names = none ∧ f'.entries? names = none) ∨
      ∃ es es', f.entries? names = some es ∧ f'.entries? names = some es' ∧
        ∀ k, FieldShortens (idle k) (inner k) (field? k es) (field? k es') := by
  cases h with
  | @leave es name f hf hi =>
      have hmem := hidle name f hi
      have hall : (es.filter (·.1 ≠ name)).all (names.contains ·.1) =
          es.all (names.contains ·.1) := by
        rw [List.all_filter, Bool.eq_iff_iff]
        simp only [List.all_eq_true]
        refine forall₂_congr fun e _ => ?_
        by_cases he : e.1 = name
        · simp [he, hmem]
        · simp [he]
      simp only [entries?, hall]
      split
      · refine .inr ⟨_, _, rfl, rfl, fun k => ?_⟩
        rw [field?_filter]
        split
        · rename_i hk
          subst hk
          rw [hf]
          exact .left hi
        · exact .same
      · exact .inl ⟨rfl, rfl⟩
  | @leaveLast items name f hat hi =>
      refine .inr ⟨_, _, rfl, rfl, fun k => ?_⟩
      rw [zip_append_cons hat, List.zip_nil_right, field?_append]
      by_cases hk : name = k
      · subst hk
        rw [field?_zip_eq_none hn hat]
        simp only [field?, if_true, Option.some_or]
        exact .left hi
      · simp only [field?, if_neg hk, Option.none_or]
        exact .same
  | @within front back name f f' hin =>
      simp only [entries?, List.all_append, List.all_cons]
      split
      · exact .inr ⟨_, _, rfl, rfl, fieldShortens_within hin front back⟩
      · exact .inl ⟨rfl, rfl⟩
  | @withinItem front back name f f' hat hin =>
      refine .inr ⟨_, _, rfl, rfl, fun k => ?_⟩
      rw [zip_append_cons hat, zip_append_cons hat]
      exact fieldShortens_within hin _ _ k

namespace FieldShortens

variable {idle : Form → Prop} {inner : Form → Form → Prop}

/-- What is made of a field stays the same if an idle one counts as none and a shorter value as the
longer one. -/
theorem apply_eq {β : Type} {o o' : Option Form} (h : FieldShortens idle inner o o')
    (g : Option Form → β) (hidle : ∀ f, idle f → g none = g (some f))
    (hinner : ∀ f f', inner f f' → g (some f') = g (some f)) : g o' = g o := by
  cases h with
  | same => rfl
  | left hi => exact hidle _ hi
  | within hin => exact hinner _ _ hin

/-- A field that has to be there is never idle. -/
theorem required_eq (h : FieldShortens idle inner (field? name es) (field? name es'))
    (read : Form → Option α) (hidle : ∀ f, ¬ idle f)
    (hinner : ∀ f f', inner f f' → read f' = read f) :
    required es' name read = required es name read :=
  h.apply_eq (·.bind read) (fun f hi => absurd hi (hidle f)) hinner

/-- An idle field gives the default. -/
theorem defaulted_eq (h : FieldShortens idle inner (field? name es) (field? name es'))
    (read : Form → Option α) (d : α) (hidle : ∀ f, idle f → read f = some d)
    (hinner : ∀ f f', inner f f' → read f' = read f) :
    defaulted es' name read d = defaulted es name read d := by
  rw [defaulted_eq_elim, defaulted_eq_elim]
  exact h.apply_eq (·.elim (some d) read) (fun f hi => (hidle f hi).symm) hinner

/-- A field that may be missing is never idle. -/
theorem optional_eq (h : FieldShortens idle inner (field? name es) (field? name es'))
    (read : Form → Option α) (hidle : ∀ f, ¬ idle f)
    (hinner : ∀ f f', inner f f' → read f' = read f) :
    optional es' name read = optional es name read := by
  have hshort : ∀ f f', inner f f' → (read f').map some = (read f).map some :=
    fun f f' hin => congrArg _ (hinner f f' hin)
  rw [optional_eq_elim, optional_eq_elim]
  exact h.apply_eq (·.elim (some none) fun f => (read f).map some)
    (fun f hi => absurd hi (hidle f)) hshort

end FieldShortens

end Form

/-! ### Types -/

theorem Members.ofForm_toForm (m : Members) : ofForm m.toForm = some m := by
  cases m with
  | float32 count | float64 count => simp [ofForm, toForm, Form.variant?]
  | integer | mixed => rfl

namespace TypeSpec

theorem entries?_toForm (t : TypeSpec) : t.toForm.entries? fieldNames = some t.entries := by
  obtain ⟨type, size, align, members, trivial, byRef⟩ := t
  cases size with
  | none | some size =>
      cases members with
      | none | some members => rfl

theorem ofForm_toForm (t : TypeSpec) : ofForm t.toForm = some t := by
  have htype : Form.required t.entries "type" (fun f => f.choice?.bind TypeName.ofName?) =
      some t.type := by
    have h : Form.field? "type" t.entries = some (.text t.type.name) := by simp [entries]
    rw [Form.required_eq h]
    exact t.type.ofName?_name
  have hsize : Form.optional t.entries "size" Form.uint32? = some t.size :=
    Form.optional_eq (by simp [entries]) Form.uint32?_ofNat
  have halign : Form.defaulted t.entries "align" Form.uint32? 8 = some t.align := by
    have h : Form.field? "align" t.entries = some (.ofNat t.align.toNat) := by simp [entries]
    rw [Form.defaulted_eq h]
    exact Form.uint32?_ofNat t.align
  have hmembers : Form.optional t.entries "members" Members.ofForm = some t.members :=
    Form.optional_eq (by simp [entries]) Members.ofForm_toForm
  have htrivial : Form.defaulted t.entries "trivial" Form.bool? true = some t.trivial := by
    have h : Form.field? "trivial" t.entries = some (.bool t.trivial) := by simp [entries]
    rw [Form.defaulted_eq h]
    rfl
  have hbyRef : Form.defaulted t.entries "by_ref" Form.bool? false = some t.byRef := by
    have h : Form.field? "by_ref" t.entries = some (.bool t.byRef) := by simp [entries]
    rw [Form.defaulted_eq h]
    rfl
  simp only [ofForm, entries?_toForm, Option.bind_eq_bind, Option.bind_some, htype, hsize, halign,
    hmembers, htrivial, hbyRef]
  rfl

/-- The field says what holds without it. -/
def Idle (name : String) (f : Form) : Prop :=
  name = "align" ∧ f.uint32? = some 8 ∨ name = "trivial" ∧ f.bool? = some true ∨
    name = "by_ref" ∧ f.bool? = some false

/-- One step of shortening the description of a type. -/
def Shortens : Form → Form → Prop := Form.Shortens fieldNames Idle fun _ _ _ => False

theorem ofForm_eq_of_shortens {f f' : Form} (h : Shortens f f') : ofForm f' = ofForm f := by
  have hidle : ∀ name f, Idle name f → name ∈ fieldNames := by
    rintro name f (⟨rfl, -⟩ | ⟨rfl, -⟩ | ⟨rfl, -⟩) <;> decide
  obtain ⟨he, he'⟩ | ⟨es, es', he, he', hk⟩ := h.fields (by decide) hidle
  · simp [ofForm, he, he']
  · have htype := (hk "type").required_eq (fun f => f.choice?.bind TypeName.ofName?)
      (by simp [Idle]) nofun
    have hsize := (hk "size").optional_eq Form.uint32? (by simp [Idle]) nofun
    have halign := (hk "align").defaulted_eq Form.uint32? 8 (by simp [Idle]) nofun
    have hmembers := (hk "members").optional_eq Members.ofForm (by simp [Idle]) nofun
    have htrivial := (hk "trivial").defaulted_eq Form.bool? true (by simp [Idle]) nofun
    have hbyRef := (hk "by_ref").defaulted_eq Form.bool? false (by simp [Idle]) nofun
    simp only [ofForm, he, he', Option.bind_eq_bind, Option.bind_some, htype, hsize, halign,
      hmembers, htrivial, hbyRef]

end TypeSpec

/-! ### Signatures -/

namespace Signature

theorem entries?_toForm (s : Signature) : s.toForm.entries? fieldNames = some s.entries := by
  obtain ⟨name, convention, address, virtualSlot, params, returns⟩ := s
  cases name with
  | none | some name =>
      cases virtualSlot with
      | none | some slot =>
          cases returns with
          | none | some t => rfl

theorem ofForm_toForm (s : Signature) : ofForm s.toForm = some s := by
  have hname : Form.optional s.entries "name" Form.text? = some s.name :=
    Form.optional_eq (by simp [entries]) Form.text?_text
  have hconvention : Form.defaulted s.entries "convention"
      (fun f => f.choice?.bind Convention.ofName?) .cdecl = some s.convention := by
    have h : Form.field? "convention" s.entries = some (.text s.convention.name) := by
      simp [entries]
    rw [Form.defaulted_eq h]
    exact s.convention.ofName?_name
  have haddress : Form.defaulted s.entries "address" Form.uint64? 0 = some s.address := by
    have h : Form.field? "address" s.entries = some (.ofNat s.address.toNat) := by simp [entries]
    rw [Form.defaulted_eq h]
    exact Form.uint64?_ofNat s.address
  have hslot : Form.optional s.entries "virtual_slot" Form.uint64? = some s.virtualSlot :=
    Form.optional_eq (by simp [entries]) Form.uint64?_ofNat
  have hparams : Form.defaulted s.entries "params"
      (fun f => f.list?.bind (·.mapM TypeSpec.ofForm)) [] = some s.params := by
    have h : Form.field? "params" s.entries = some (.list (s.params.map TypeSpec.toForm)) := by
      simp [entries]
    have hread : (Form.list (s.params.map TypeSpec.toForm)).listOf? TypeSpec.ofForm =
        some (s.params.map id) := Form.listOf?_map fun t _ => t.ofForm_toForm
    rw [Form.defaulted_eq h]
    rwa [List.map_id] at hread
  have hreturns : Form.optional s.entries "returns" TypeSpec.ofForm = some s.returns :=
    Form.optional_eq (by simp [entries]) TypeSpec.ofForm_toForm
  simp only [ofForm, entries?_toForm, Option.bind_eq_bind, Option.bind_some, hname, hconvention,
    haddress, hslot, hparams, hreturns]
  rfl

/-- The field says what holds without it. -/
def Idle (name : String) (f : Form) : Prop :=
  name = "convention" ∧ f.choice?.bind Convention.ofName? = some .cdecl ∨
    name = "address" ∧ f.uint64? = some 0 ∨ name = "params" ∧ f.list? = some []

/-- The value of a field is shortened: one of the parameter types, or the result type. -/
def ShortensWithin (name : String) (f f' : Form) : Prop :=
  (name = "params" ∧ ∃ front t t' back, f = .list (front ++ t :: back) ∧
      f' = .list (front ++ t' :: back) ∧ TypeSpec.Shortens t t') ∨
    name = "returns" ∧ TypeSpec.Shortens f f'

/-- One step of shortening the description of a signature. -/
def Shortens : Form → Form → Prop := Form.Shortens fieldNames Idle ShortensWithin

theorem idle_params (f : Form) (h : Idle "params" f) :
    f.list?.bind (·.mapM TypeSpec.ofForm) = some [] := by
  have hf : f.list? = some [] := by simpa [Idle] using h
  simp [hf]

theorem shortensWithin_params (f f' : Form) (h : ShortensWithin "params" f f') :
    f'.list?.bind (·.mapM TypeSpec.ofForm) = f.list?.bind (·.mapM TypeSpec.ofForm) := by
  obtain ⟨front, t, t', back, rfl, rfl, ht⟩ : ∃ front t t' back,
      f = .list (front ++ t :: back) ∧ f' = .list (front ++ t' :: back) ∧
        TypeSpec.Shortens t t' := by simpa [ShortensWithin] using h
  simp only [Form.list?, Option.bind_some, List.mapM_append, List.mapM_cons,
    TypeSpec.ofForm_eq_of_shortens ht]

theorem shortensWithin_returns (f f' : Form) (h : ShortensWithin "returns" f f') :
    TypeSpec.ofForm f' = TypeSpec.ofForm f := by
  have hf : TypeSpec.Shortens f f' := by simpa [ShortensWithin] using h
  exact TypeSpec.ofForm_eq_of_shortens hf

theorem ofForm_eq_of_shortens {f f' : Form} (h : Shortens f f') : ofForm f' = ofForm f := by
  have hidle : ∀ name f, Idle name f → name ∈ fieldNames := by
    rintro name f (⟨rfl, -⟩ | ⟨rfl, -⟩ | ⟨rfl, -⟩) <;> decide
  obtain ⟨he, he'⟩ | ⟨es, es', he, he', hk⟩ := h.fields (by decide) hidle
  · simp [ofForm, he, he']
  · have hname := (hk "name").optional_eq Form.text? (by simp [Idle]) (by simp [ShortensWithin])
    have hconvention := (hk "convention").defaulted_eq
      (fun f => f.choice?.bind Convention.ofName?) .cdecl (by simp [Idle])
      (by simp [ShortensWithin])
    have haddress := (hk "address").defaulted_eq Form.uint64? 0 (by simp [Idle])
      (by simp [ShortensWithin])
    have hslot := (hk "virtual_slot").optional_eq Form.uint64? (by simp [Idle])
      (by simp [ShortensWithin])
    have hparams := (hk "params").defaulted_eq (fun f => f.list?.bind (·.mapM TypeSpec.ofForm)) []
      idle_params shortensWithin_params
    have hreturns := (hk "returns").optional_eq TypeSpec.ofForm (by simp [Idle])
      shortensWithin_returns
    simp only [ofForm, he, he', Option.bind_eq_bind, Option.bind_some, hname, hconvention,
      haddress, hslot, hparams, hreturns]

theorem ofForm_eq_of_reflTransGen {f f' : Form} (h : Relation.ReflTransGen Shortens f f') :
    ofForm f' = ofForm f := by
  induction h with
  | refl => rfl
  | tail _ hstep ih => exact (ofForm_eq_of_shortens hstep).trans ih

/-- The written form of a signature is read as the signature, which thus describes the same
function.  A description from which idle fields are left out, in the signature or in its types and
any number of them, is read as before, and so is a text that denotes it. -/
theorem form_round_trip :
    (∀ s : Signature, ofForm s.toForm = some s ∧
      (ofForm s.toForm).map callable = some s.callable) ∧
    (∀ f f', Relation.ReflTransGen Shortens f f' → ofForm f' = ofForm f) ∧
    ∀ text text' f f', Toml.read text = some f → Toml.read text' = some f' →
      Relation.ReflTransGen Shortens f f' → ofText text' = ofText text := by
  refine ⟨?_, fun _ _ => ofForm_eq_of_reflTransGen, ?_⟩
  · intro s
    rw [ofForm_toForm]
    exact ⟨rfl, rfl⟩
  · intro text text' f f' hf hf' h
    simp only [ofText, hf, hf', Option.bind_some, ofForm_eq_of_reflTransGen h]

/-- A description that spells out a convention and an alignment that it need not. -/
def verbose : Form :=
  .record [("convention", .text "cdecl"),
    ("params", .list [.record [("type", .text "i32"), ("align", .integer 8)]])]

/-- The same description without them. -/
def terse : Form := .record [("params", .list [.record [("type", .text "i32")]])]

theorem verbose_shortens : Relation.ReflTransGen Shortens verbose terse := by
  have halign : TypeSpec.Shortens (.record [("type", .text "i32"), ("align", .integer 8)])
      (.record [("type", .text "i32")]) := .leave "align" rfl (Or.inl ⟨rfl, rfl⟩)
  have hconvention : Shortens verbose (.record
      [("params", .list [.record [("type", .text "i32"), ("align", .integer 8)]])]) :=
    .leave "convention" rfl (Or.inl ⟨rfl, rfl⟩)
  have hparams : ShortensWithin "params"
      (.list [.record [("type", .text "i32"), ("align", .integer 8)]])
      (.list [.record [("type", .text "i32")]]) :=
    Or.inl ⟨rfl, [], _, _, [], rfl, rfl, halign⟩
  have hinner : Shortens (.record
      [("params", .list [.record [("type", .text "i32"), ("align", .integer 8)]])]) terse :=
    .within [] [] hparams
  exact .tail (.single hconvention) hinner

/-- The entries of a function with a name and an address that could be left out. -/
def numbered : List (String × Form) := [("name", .text "add"), ("address", .ofNat 0)]

def named : List (String × Form) := [("name", .text "add")]

theorem read_numbered : Toml.read (Toml.write numbered) = some (.record numbered) :=
  Toml.read_write (by decide) (List.forall_mem_cons.mpr ⟨trivial, List.forall_mem_cons.mpr
    ⟨Toml.plain_ofNat (by decide), List.forall_mem_nil _⟩⟩)

theorem read_named : Toml.read (Toml.write named) = some (.record named) :=
  Toml.read_write (by decide) (List.forall_mem_cons.mpr ⟨trivial, List.forall_mem_nil _⟩)

theorem numbered_shortens : Relation.ReflTransGen Shortens (.record numbered) (.record named) :=
  .single (.leave "address" rfl (Or.inr (Or.inl ⟨rfl, rfl⟩)))

/-- One integer parameter and nothing else. -/
theorem form_round_trip_verbose : Relation.ReflTransGen Shortens verbose terse ∧
    ofForm terse = ofForm verbose ∧
    ofForm verbose = some ⟨none, .cdecl, 0, none, [⟨.scalar .i32, none, 8, none, true, false⟩],
      none⟩ ∧
    Toml.read (Toml.write numbered) = some (.record numbered) ∧
    Toml.read (Toml.write named) = some (.record named) ∧
    Relation.ReflTransGen Shortens (.record numbered) (.record named) ∧
    ofText (Toml.write named) = ofText (Toml.write numbered) := by
  obtain ⟨-, hread, htext⟩ := form_round_trip
  exact ⟨verbose_shortens, hread _ _ verbose_shortens, rfl, read_numbered, read_named,
    numbered_shortens, htext _ _ _ _ read_numbered read_named numbered_shortens⟩

end Signature

end ForeignCall
