import ForeignCall.Abi.Text
import ForeignCall.Proofs.Document
import ForeignCall.Proofs.Readback

/-! # The text of an ABI

An ABI is written with all its fields, one to a line, and each of them is a word or a text.  So the
text is read as the record of its fields (`Toml.read_write`) if its counts fit the integers of the
format, and every field is found there under its own name (`Abi.ofForm_toForm`).

Reading then validates what it has found.  Hence `text_round_trip`: the text of a valid ABI is read
as the ABI, the text of any other one fails with the defect of the ABI, and nothing that is read
from any text has a defect. -/

namespace ForeignCall.Abi

variable {abi : Abi}

theorem count?_ofNat {n : Nat} (h : n ≤ Int64.maxValue.toInt) : count? (.ofNat n) = some n := by
  have hsize : Int64.maxValue.toInt < UInt64.size := by decide
  exact Form.below?_ofNat (Int.ofNat_lt.mp (Int.lt_of_le_of_lt h hsize))

theorem nodup_keys (abi : Abi) : (abi.entries.map (·.1)).Nodup := by
  show ["arch", "gp_arg_registers", "float_arg_registers", "max_stack_slots",
    "float_return_registers", "float_packing", "hidden_pointer", "max_register_aggregate",
    "close_class_on_spill", "even_gp_for_align16", "large_aggregates_by_address"].Nodup
  decide

theorem plain_entries (h : ∀ b ∈ abi.budgets, b.value ≤ Int64.maxValue.toInt) :
    ∀ e ∈ abi.entries, Toml.Plain e.2 := by
  simp only [budgets, List.forall_mem_cons] at h
  obtain ⟨hgeneral, hfloat, hstack, hreturn, hbytes, -⟩ := h
  simp only [entries, List.forall_mem_cons]
  exact ⟨trivial, Toml.plain_ofNat hgeneral, Toml.plain_ofNat hfloat, Toml.plain_ofNat hstack,
    Toml.plain_ofNat hreturn, trivial, trivial, Toml.plain_ofNat hbytes, trivial, trivial, trivial,
    List.forall_mem_nil _⟩

theorem ofForm_toForm (h : ∀ b ∈ abi.budgets, b.value ≤ Int64.maxValue.toInt) :
    ofForm abi.toForm = some abi := by
  simp only [budgets, List.forall_mem_cons] at h
  obtain ⟨hgeneral', hfloat', hstack', hreturn', -⟩ := h
  have harch : Form.required abi.entries "arch" (fun f => f.choice?.bind Arch.ofName?) =
      some abi.arch :=
    (Form.required_eq (f := .text abi.arch.name) rfl).trans abi.arch.ofName?_name
  have hgeneral : Form.required abi.entries "gp_arg_registers" count? =
      some abi.generalRegisters :=
    (Form.required_eq (f := .ofNat abi.generalRegisters) rfl).trans (count?_ofNat hgeneral')
  have hfloat : Form.required abi.entries "float_arg_registers" count? =
      some abi.floatRegisters :=
    (Form.required_eq (f := .ofNat abi.floatRegisters) rfl).trans (count?_ofNat hfloat')
  have hstack : Form.required abi.entries "max_stack_slots" count? = some abi.stackSlots :=
    (Form.required_eq (f := .ofNat abi.stackSlots) rfl).trans (count?_ofNat hstack')
  have hreturn : Form.required abi.entries "float_return_registers" count? =
      some abi.floatReturnRegisters :=
    (Form.required_eq (f := .ofNat abi.floatReturnRegisters) rfl).trans (count?_ofNat hreturn')
  have hpacking : Form.required abi.entries "float_packing"
      (fun f => f.choice?.bind FloatPacking.ofName?) = some abi.packing :=
    (Form.required_eq (f := .text abi.packing.name) rfl).trans abi.packing.ofName?_name
  have hpointer : Form.required abi.entries "hidden_pointer"
      (fun f => f.choice?.bind HiddenPointer.ofName?) = some abi.hiddenPointer :=
    (Form.required_eq (f := .text abi.hiddenPointer.name) rfl).trans
      abi.hiddenPointer.ofName?_name
  have hbytes : Form.required abi.entries "max_register_aggregate" Form.uint32? =
      some abi.registerBytes :=
    (Form.required_eq (f := .ofNat abi.registerBytes.toNat) rfl).trans (Form.uint32?_ofNat _)
  have hclose : Form.required abi.entries "close_class_on_spill" Form.bool? =
      some abi.closeOnSpill := Form.required_eq (f := .bool abi.closeOnSpill) rfl
  have heven : Form.required abi.entries "even_gp_for_align16" Form.bool? =
      some abi.evenForAlign16 := Form.required_eq (f := .bool abi.evenForAlign16) rfl
  have hlarge : Form.required abi.entries "large_aggregates_by_address" Form.bool? =
      some abi.largeByAddress := Form.required_eq (f := .bool abi.largeByAddress) rfl
  simp only [ofForm, toForm, ofEntries, harch, hgeneral, hfloat, hstack, hreturn, hpacking,
    hpointer, hbytes, hclose, heven, hlarge, Option.bind_eq_bind, Option.bind_some]
  rfl

/-- Reading the text of an ABI comes down to validating it. -/
theorem ofText_text (h : ∀ b ∈ abi.budgets, b.value ≤ Int64.maxValue.toInt) :
    ofText abi.text = (abi.validate.map fun _ => abi).mapError .invalid := by
  have hread : Toml.read abi.text = some abi.toForm :=
    Toml.read_write (nodup_keys abi) (plain_entries h)
  simp only [ofText, hread, Option.bind_some, ofForm_toForm h]
  cases abi.validate <;> rfl

theorem validate_of_ofText {s : String} (h : ofText s = .ok abi) : abi.validate = .ok () := by
  unfold ofText at h
  split at h
  · cases h
  · split at h
    · rename_i u hv
      cases h
      exact hv
    · cases h

/-- The text of an ABI whose counts are integers of the format is read as the ABI if that is valid,
and otherwise fails with the defect that validation reports.  Whatever is read from any text is a
valid ABI. -/
theorem text_round_trip :
    (∀ abi : Abi, (∀ b ∈ abi.budgets, b.value ≤ Int64.maxValue.toInt) →
      (abi.validate = .ok () → ofText abi.text = .ok abi) ∧
      ∀ d, abi.validate = .error d → ofText abi.text = .error (.invalid d)) ∧
    ∀ s abi, ofText s = .ok abi → abi.validate = .ok () := by
  refine ⟨fun abi h => ⟨fun hv => ?_, fun d hv => ?_⟩, fun s abi => validate_of_ofText⟩
  · rw [ofText_text h, hv]
    rfl
  · rw [ofText_text h, hv]
    rfl

/-- A preset comes back, and with a register too many it is refused for that. -/
theorem text_round_trip_aarch64 :
    (∀ b ∈ aarch64.budgets, b.value ≤ Int64.maxValue.toInt) ∧ aarch64.validate = .ok () ∧
      ofText aarch64.text = .ok aarch64 ∧
      ofText { aarch64 with generalRegisters := 9 }.text =
        .error (.invalid (.budget ⟨"gp_arg_registers", 9, 1, 8⟩)) := by
  have hfits : ∀ b ∈ aarch64.budgets, b.value ≤ Int64.maxValue.toInt := by decide
  have hcrowded : ∀ b ∈ budgets { aarch64 with generalRegisters := 9 },
      b.value ≤ Int64.maxValue.toInt := by decide
  obtain ⟨hread, -⟩ := text_round_trip
  exact ⟨hfits, rfl, (hread _ hfits).1 rfl, (hread _ hcrowded).2 _ rfl⟩

end ForeignCall.Abi
