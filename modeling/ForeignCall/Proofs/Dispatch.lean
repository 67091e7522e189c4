import ForeignCall.Proofs.Result
import ForeignCall.Session
import Mathlib.Data.List.Induction

/-! # Where calls go

A plan is made once and says how its target is found: a fixed address, or a slot of the table that
the receiver points to.  A call resolves that target anew in the memory of its own moment, so that
nothing which was read for the plan, or for an earlier call, can be entered again.

* `Caller.entry_of_mem_entries` says what an entry into the invoker is made of.
* A session only ever adds plans.  One step keeps the plans that are there and gives a number to at
  most one more (`plan?_step`); along a run every plan is the one that its own preparation answered
  (`prepared_of_plan?`).
* `getElem?_run` finds the answer of a step in a run: it is given in the session that the steps before
  it lead to.
* `entered_after_store` is what follows for a table that is written between two calls.

`calls_enter_current_target` puts these together, for runs of any length. -/

namespace ForeignCall

/-! ### Words in memory -/

theorem wordOfBytes_wordBytes (w : UInt64) : wordOfBytes (wordBytes w) = w := by
  have hw : w.toNat < 1 <<< (8 * 8) := w.toNat_lt
  unfold wordOfBytes wordBytes
  rw [ofLittleEndian_littleEndian, Nat.mod_eq_of_lt hw, UInt64.ofNat_toNat]

namespace Memory

/-- The words at the two addresses have no byte in common. -/
def Apart (a b : UInt64) : Prop := 8 ≤ (a - b).toNat ∧ 8 ≤ (b - a).toNat

theorem loadWord_store (m : Memory) (address w : UInt64) :
    (m.store address (wordBytes w)).loadWord address = w := by
  have hlength : (wordBytes w).length ≤ UInt64.size := by
    rw [length_wordBytes]
    decide
  have hload := m.load_store address hlength
  rw [length_wordBytes] at hload
  unfold loadWord
  rw [hload, wordOfBytes_wordBytes]

theorem loadWord_store_of_apart {m : Memory} {a address w : UInt64} (h : Apart a address) :
    (m.store address (wordBytes w)).loadWord a = m.loadWord a := by
  obtain ⟨hbehind, hahead⟩ := h
  unfold loadWord
  rw [load_congr]
  intro i hi
  apply byte_store_of_le
  -- the distance grows with the byte and does not wrap around before the stored word
  have ha : a.toNat < 2 ^ 64 := a.toNat_lt
  have haddress : address.toNat < 2 ^ 64 := address.toNat_lt
  rw [length_wordBytes]
  simp only [UInt64.toNat_sub, UInt64.toNat_add, UInt64.toNat_ofNat'] at hbehind hahead ⊢
  omega

end Memory

/-! ### One call -/

namespace Caller

variable {c : Caller} {p : Plan} {args : Arguments} {destination : UInt64} {run : Behaviour}
  {m : Memory} {e : Entry}

/-- The invoker is entered with the frame of the arguments and the target of that moment. -/
theorem entry_of_mem_entries (he : e ∈ (c.call p args destination run m).entries) :
    p.marshal args m = .ok e.frame ∧ p.target.resolve args.object m = .ok e.target ∧
      e.variant = p.result.variant ∧ e.result = destination := by
  unfold call at he
  split at he
  · cases he
  cases hmarshal : p.marshal args m with
  | error failure =>
      rw [hmarshal] at he
      cases he
  | ok frame =>
      cases htarget : p.target.resolve args.object m with
      | error b =>
          simp only [hmarshal, htarget] at he
          cases he
      | ok target =>
          have hentry : e = ⟨frame, target, p.result.variant, destination⟩ := by
            simp only [hmarshal, htarget] at he
            -- the entry is noted however the call ends
            split at he
            · exact List.mem_singleton.mp he
            · split at he
              · exact List.mem_singleton.mp he
              · exact List.mem_singleton.mp he
          subst hentry
          exact ⟨rfl, rfl, rfl, rfl⟩

end Caller

theorem Target.resolve_virtualSlot_eq_ok_iff {slot object target : UInt64} {m : Memory} :
    (virtualSlot slot).resolve object m = .ok target ↔
      object ≠ 0 ∧ target = m.loadWord (m.loadWord object + 8 * slot) := by
  unfold resolve
  by_cases h0 : object = 0
  · simp [h0]
  · simp [h0, eq_comm]

/-! ### Plans of a session -/

namespace Session

variable {s : Session}

theorem caller_step (s : Session) (t : Step) : (s.step t).1.caller = s.caller := by
  cases t with
  | prepare signature abi =>
      simp only [step]
      split <;> rfl
  | store address bytes => rfl
  | call index args destination run =>
      simp only [step]
      split <;> rfl

theorem plan?_append (s : Session) (x : Option Plan) (index : Nat) :
    { s with plans := s.plans ++ [x] }.plan? index =
      if index = s.plans.length then x else s.plan? index := by
  unfold plan?
  rcases Nat.lt_trichotomy index s.plans.length with h | h | h
  · rw [List.getElem?_append_left h, if_neg (by omega)]
  · rw [h, if_pos rfl]
    simp
  · rw [if_neg (by omega), List.getElem?_eq_none (by simp; omega), List.getElem?_eq_none (by omega)]

/-- Behind a step a plan is one that was there before, or the one that the step prepared. -/
theorem plan?_step {t : Step} {index : Nat} {p : Plan} (h : (s.step t).1.plan? index = some p) :
    s.plan? index = some p ∨ ∃ signature abi, t = .prepare signature abi ∧
      signature.plan (abi.getD s.caller.abi) = .ok p ∧ (s.step t).2 = .prepared index p := by
  cases t with
  | prepare signature abi =>
      cases hplan : signature.plan (abi.getD s.caller.abi) with
      | error e =>
          simp only [step, hplan, plan?_append] at h
          split at h
          · cases h
          · exact Or.inl h
      | ok q =>
          simp only [step, hplan, plan?_append] at h ⊢
          split at h
          · rename_i hindex
            cases h
            exact Or.inr ⟨signature, abi, rfl, hplan, by rw [hindex]⟩
          · exact Or.inl h
  | store address bytes => exact Or.inl h
  | call i args destination run =>
      simp only [step] at h
      split at h
      · exact Or.inl h
      · exact Or.inl h

/-! ### Runs -/

theorem run_append (s : Session) (ts us : List Step) :
    s.run (ts ++ us) =
      (((s.run ts).1.run us).1, (s.run ts).2 ++ ((s.run ts).1.run us).2) := by
  induction ts generalizing s with
  | nil => rfl
  | cons t ts ih => simp only [List.cons_append, run, ih]

theorem length_run (s : Session) (ts : List Step) : (s.run ts).2.length = ts.length := by
  induction ts generalizing s with
  | nil => rfl
  | cons t ts ih => simp only [run, List.length_cons, ih]

theorem caller_run (s : Session) (ts : List Step) : (s.run ts).1.caller = s.caller := by
  induction ts generalizing s with
  | nil => rfl
  | cons t ts ih =>
      simp only [run]
      rw [ih, caller_step]

theorem getElem?_run (s : Session) {ts : List Step} {i : Nat} {t : Step} (h : ts[i]? = some t) :
    (s.run ts).2[i]? = some ((s.run (ts.take i)).1.step t).2 := by
  induction ts generalizing s i with
  | nil => cases h
  | cons t' ts ih =>
      cases i with
      | zero =>
          cases h
          rfl
      | succ i => exact ih (s.step t').1 h

/-- The steps of a run, each with its answer. -/
def history (s : Session) (ts : List Step) : List (Step × Answer) := ts.zip (s.run ts).2

theorem history_append (s : Session) (ts us : List Step) :
    s.history (ts ++ us) = s.history ts ++ (s.run ts).1.history us := by
  unfold history
  rw [run_append, List.zip_append (s.length_run ts).symm]

theorem history_singleton (s : Session) (t : Step) : s.history [t] = [(t, (s.step t).2)] := rfl

/-- The plan with a number is the one that a preparation answered with that number. -/
def Prepared (s : Session) (ts : List Step) (index : Nat) (p : Plan) : Prop :=
  ∃ signature abi, (.prepare signature abi, .prepared index p) ∈ s.history ts ∧
    signature.plan (abi.getD s.caller.abi) = .ok p

theorem prepared_of_plan? (c : Caller) (m : Memory) {ts : List Step} {index : Nat} {p : Plan}
    (h : ((start c m).run ts).1.plan? index = some p) : (start c m).Prepared ts index p := by
  induction ts using List.reverseRecOn with
  | nil => cases h
  | append_singleton ts t ih =>
      rw [run_append] at h
      unfold Prepared
      rw [history_append]
      obtain hbefore | ⟨signature, abi, rfl, hplan, hanswer⟩ := plan?_step h
      · obtain ⟨signature, abi, hmem, hplan⟩ := ih hbefore
        exact ⟨signature, abi, List.mem_append_left _ hmem, hplan⟩
      · rw [caller_run] at hplan
        refine ⟨signature, abi, List.mem_append_right _ ?_, hplan⟩
        rw [history_singleton, hanswer]
        exact List.mem_singleton.mpr rfl

theorem Prepared.planned {ts : List Step} {index : Nat} {p : Plan} (h : s.Prepared ts index p) :
    ∃ f abi, p.Planned f abi := by
  obtain ⟨signature, abi, -, hplan⟩ := h
  simp only [Signature.plan, bind_eq_ok, mapError_eq_ok] at hplan
  obtain ⟨f, -, hmake⟩ := hplan
  exact ⟨f, _, Plan.make_eq_ok_iff.mp hmake⟩

/-! ### Calls in a run -/

theorem step_call_eq_called {index : Nat} {args : Arguments} {destination : UInt64}
    {run : Behaviour} {o : Outcome}
    (h : (s.step (.call index args destination run)).2 = .called o) :
    ∃ p, s.plan? index = some p ∧ o = s.caller.call p args destination run s.memory := by
  simp only [step] at h
  cases hplan : s.plan? index with
  | none =>
      rw [hplan] at h
      cases h
  | some p =>
      rw [hplan] at h
      cases h
      exact ⟨p, rfl, rfl⟩

/-- An entry of the receiver's table that is written is entered by the next call through it, whatever
was there when the plan was made or called before. -/
theorem entered_after_store {index : Nat} {p : Plan} {slot : UInt64}
    (hplan : s.plan? index = some p) (htarget : p.target = .virtualSlot slot) {args : Arguments}
    (hapart : Memory.Apart args.object (s.memory.loadWord args.object + 8 * slot)) (w : UInt64)
    {destination : UInt64} {run : Behaviour} {o : Outcome}
    (ho : ((s.step (.store (s.memory.loadWord args.object + 8 * slot) (wordBytes w))).1.step
      (.call index args destination run)).2 = .called o) : ∀ e ∈ o.entries, e.target = w := by
  intro e he
  obtain ⟨q, hq, rfl⟩ := step_call_eq_called ho
  have hqp : q = p := Option.some.inj (hq.symm.trans hplan)
  subst hqp
  obtain ⟨-, hresolve, -⟩ := Caller.entry_of_mem_entries he
  rw [htarget, Target.resolve_virtualSlot_eq_ok_iff] at hresolve
  obtain ⟨-, hresolve⟩ := hresolve
  simp only [step] at hresolve
  rw [hresolve, Memory.loadWord_store_of_apart hapart, Memory.loadWord_store]

/-- Plans have a table slot for a target exactly under virtual conventions.  In a session, whatever is
prepared, stored and called in between, every call is a call of a plan that was prepared before it,
in the memory that the steps before it leave.  If it enters the invoker, a virtual plan enters the
word that stands at that moment in its slot of the table that the receiver points to, and any other
plan its fixed address. -/
theorem calls_enter_current_target :
    (∀ f abi p, Plan.make f abi = .ok p →
      ((∃ slot, p.target = .virtualSlot slot) ↔ p.convention.isVirtual = true)) ∧
      ∀ (c : Caller) (m : Memory) (ts : List Step) (i index : Nat) (args : Arguments)
        (destination : UInt64) (run : Behaviour) (o : Outcome),
        ts[i]? = some (.call index args destination run) →
        ((start c m).run ts).2[i]? = some (.called o) →
        ∃ s p, s = ((start c m).run (ts.take i)).1 ∧ s.plan? index = some p ∧
          (start c m).Prepared (ts.take i) index p ∧
          o = c.call p args destination run s.memory ∧
          ∀ e ∈ o.entries,
            (p.convention.isVirtual = true → ∃ slot, p.target = .virtualSlot slot ∧
              args.object ≠ 0 ∧
              e.target = s.memory.loadWord (s.memory.loadWord args.object + 8 * slot)) ∧
            (p.convention.isVirtual = false → ∃ address, p.target = .direct address ∧
              e.target = address) := by
  refine ⟨?_, ?_⟩
  · intro f abi p hp
    exact (Plan.make_eq_ok_iff.mp hp).exists_virtualSlot_iff
  · intro c m ts i index args destination run o hstep hanswer
    rw [getElem?_run _ hstep] at hanswer
    obtain ⟨p, hplan, ho⟩ := step_call_eq_called (Option.some.inj hanswer)
    have hprepared := prepared_of_plan? c m hplan
    obtain ⟨f, abi, hp⟩ := hprepared.planned
    rw [caller_run] at ho
    refine ⟨_, p, rfl, hplan, hprepared, ho, ?_⟩
    intro e he
    rw [ho] at he
    obtain ⟨-, hresolve, -⟩ := Caller.entry_of_mem_entries he
    refine ⟨?_, ?_⟩
    · intro hvirtual
      obtain ⟨slot, hslot⟩ := hp.exists_virtualSlot_iff.mpr hvirtual
      rw [hslot, Target.resolve_virtualSlot_eq_ok_iff] at hresolve
      exact ⟨slot, hslot, hresolve⟩
    · intro hdirect
      cases ht : p.target with
      | direct address =>
          rw [ht] at hresolve
          exact ⟨address, rfl, (Except.ok.inj hresolve).symm⟩
      | virtualSlot slot =>
          have hvirtual := hp.exists_virtualSlot_iff.mp ⟨slot, ht⟩
          rw [hdirect] at hvirtual
          cases hvirtual

/-- A method in slot 2 of a table at `0x2000` is called, replaced in the table, and called again. -/
def replacing : List Step :=
  [.prepare ⟨none, .virtualThiscall, 0, some 2, [], none⟩ none,
    .store 0x1000 (wordBytes 0x2000),
    .store 0x2010 (wordBytes 0x5000),
    .call 0 ⟨.empty, 0x1000, 0⟩ 0 (SystemV.answering ⟨0, 0, 0, 0⟩),
    .store 0x2010 (wordBytes 0x6000),
    .call 0 ⟨.empty, 0x1000, 0⟩ 0 (SystemV.answering ⟨0, 0, 0, 0⟩)]

/-- The first of the two calls enters the old method and the second one the new. -/
theorem calls_enter_current_target_replacing :
    let c : Caller := ⟨.systemV, false, ⟨.x86_64, .systemV⟩⟩
    (∃ o e, ((start c .zero).run replacing).2[3]? = some (.called o) ∧ o.entries = [e] ∧
      e.target = 0x5000) ∧
      ∃ o e, ((start c .zero).run replacing).2[5]? = some (.called o) ∧ o.entries = [e] ∧
        e.target = 0x6000 := by
  intro c
  obtain ⟨-, hcalls⟩ := calls_enter_current_target
  have hcall : ∀ i w,
      replacing[i]? = some (.call 0 ⟨.empty, 0x1000, 0⟩ 0 (SystemV.answering ⟨0, 0, 0, 0⟩)) →
      (∃ o e, ((start c .zero).run replacing).2[i]? = some (.called o) ∧ o.entries = [e]) →
      (∃ s p, s = ((start c .zero).run (replacing.take i)).1 ∧ s.plan? 0 = some p ∧
        p.convention.isVirtual = true ∧ p.target = .virtualSlot 2 ∧
        s.memory.loadWord (s.memory.loadWord 0x1000 + 8 * 2) = w) →
      ∃ o e, ((start c .zero).run replacing).2[i]? = some (.called o) ∧ o.entries = [e] ∧
        e.target = w := by
    rintro i w hstep ⟨o, e, ho, he⟩ ⟨s, p, hs, hplan, hvirtual, hslot, hw⟩
    obtain ⟨s', p', hs', hplan', -, -, hentries⟩ := hcalls c .zero replacing i 0 _ _ _ o hstep ho
    rw [← hs] at hs'
    subst hs'
    rw [hplan] at hplan'
    cases hplan'
    obtain ⟨slot, hslot', -, htarget⟩ := (hentries e (by simp [he])).1 hvirtual
    rw [hslot] at hslot'
    cases hslot'
    exact ⟨o, e, ho, he, htarget.trans hw⟩
  refine ⟨hcall 3 _ rfl ⟨_, _, rfl, rfl⟩ ⟨_, _, rfl, rfl, rfl, rfl, ?_⟩,
    hcall 5 _ rfl ⟨_, _, rfl, rfl⟩ ⟨_, _, rfl, rfl, rfl, rfl, ?_⟩⟩
  · decide
  · decide

end Session

end ForeignCall
