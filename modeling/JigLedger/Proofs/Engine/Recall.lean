import JigLedger.Proofs.Engine.Numbering
import JigLedger.Proofs.Engine.Signatures

/-!
# What the statements recall

Each instruction gives one statement, which is noted when the instruction is over. Nothing else
changes the statements, neither the code of guests nor anything that the engine does for them. So
while an instruction runs, a statement is what the instruction with its index has given, from the
session in which it began.
-/

namespace JigLedger.Engine

variable {α : Type} {c : Context} {tx : Transaction} {s t : Session} {i : Instruction} {idx : Nat}

/-! ### Statements stay -/

/-- The same instruction runs, and the statements are as they were. -/
structure Keeps (s t : Session) : Prop where
  current : t.current = s.current
  statements : t.statements = s.statements

theorem oblivious_keeps (c : Context) : Oblivious c Keeps where
  silent h := ⟨h.current, h.statements⟩
  trans h h' := ⟨h'.current.trans h.current, h'.statements.trans h.statements⟩
  noted s _ _ := ⟨rfl, rfl⟩
  launched s _ := ⟨rfl, rfl⟩
  started s _ := ⟨rfl, rfl⟩
  deployed s _ := ⟨rfl, rfl⟩
  relocked s _ _ := ⟨rfl, rfl⟩
  inFrame body := by
    intro s a t run
    obtain ⟨u, ran, rfl⟩ := runFrom_inFrame_eq_ok run
    have inner := body _ _ _ ran
    exact ⟨inner.current, inner.statements⟩
  pointed s _ := ⟨rfl, rfl⟩
  made s _ _ := ⟨rfl, rfl⟩

/-- Whatever is done in a transaction keeps the statements. -/
theorem Built.keeps_host {top : Option Nat} {m : Context → Engine α} (h : Built invoker top m) :
    Leads Keeps (m c) :=
  (oblivious_keeps c).leads_host h fun _ origin idx s _ t run => by
    obtain ⟨jig, amount, -, -, -, -, rfl⟩ := runFrom_pay_eq_ok.1 run
    exact ⟨rfl, rfl⟩

/-! ### One instruction after the other -/

/-- The instruction with an index has been reached and has given a statement. -/
def Gives (c : Context) (tx : Transaction) (idx : Nat) (statement : Statement) : Prop :=
  ∃ i s t, tx.instructions[idx]? = some i ∧ Arrives c tx idx s ∧
    runFrom (s.began idx) ((host c).instruction i) = (.ok statement, t)

theorem arrives_zero : Arrives c tx 0 (.start c.env.config.fuelLimit tx.size) := ⟨[], rfl⟩

/-- The next instruction begins where the one before it has succeeded. -/
theorem arrives_succ (here : tx.instructions[idx]? = some i) :
    Arrives c tx (idx + 1) t ↔
      ∃ s fuel, Arrives c tx idx s ∧ runFrom s (step (host c) idx i) = (.ok fuel, t) := by
  have le : idx ≤ tx.instructions.length := Nat.le_of_lt (List.getElem?_eq_some_iff.1 here).1
  have length : (tx.instructions.take idx).length = idx := List.length_take_of_le le
  have taken : tx.instructions.take (idx + 1) = tx.instructions.take idx ++ [i] := by
    rw [List.take_add_one, here]
    rfl
  unfold Arrives
  rw [taken]
  constructor
  · rintro ⟨fuel, run⟩
    obtain ⟨first, s, second, before, rest⟩ := runFrom_steps_append_eq_ok run
    rw [length, Nat.zero_add] at rest
    obtain ⟨last, u, third, stepped, done⟩ := runFrom_steps_cons_eq_ok rest
    cases done
    exact ⟨s, last, ⟨first, before⟩, stepped⟩
  · rintro ⟨s, last, ⟨first, before⟩, stepped⟩
    refine ⟨first ++ [last], runFrom_steps_append before ?_⟩
    rw [length, Nat.zero_add, steps, runFrom_bind_of_ok (runFrom_rethrow_eq_ok.2 stepped)]
    rfl

/-- Each statement is what the instruction with its index has given, before the current one. -/
def Recalls (c : Context) (tx : Transaction) (s : Session) : Prop :=
  ∀ k statement, s.statements[k]? = some statement → k < s.current ∧ Gives c tx k statement

theorem Recalls.of_keeps (recalls : Recalls c tx s) (keeps : Keeps s t) : Recalls c tx t := by
  rw [Recalls, keeps.current, keeps.statements]
  exact recalls

/-- Where an instruction begins, the earlier ones have given one statement each. -/
theorem Arrives.statements (arrives : Arrives c tx idx s) (le : idx ≤ tx.instructions.length) :
    s.statements.length = idx ∧ ∀ k statement, s.statements[k]? = some statement →
      Gives c tx k statement := by
  induction idx generalizing s with
  | zero =>
    obtain ⟨fuel, run⟩ := arrives
    cases run
    exact ⟨rfl, nofun⟩
  | succ idx ih =>
    have here := List.getElem?_eq_getElem le
    obtain ⟨u, fuel, before, stepped⟩ := (arrives_succ here).1 arrives
    obtain ⟨length, gives⟩ := ih before (Nat.le_of_succ_le le)
    obtain ⟨statement, v, performed, rfl⟩ := runFrom_step_eq_ok stepped
    have built : Built invoker none fun c => (invoker.host c).instruction tx.instructions[idx] :=
      .instruction _
    have same : v.statements = u.statements :=
      (built.keeps_host _ _ _ performed).statements
    dsimp only
    rw [same, List.length_append, length]
    refine ⟨rfl, fun k statement' found => ?_⟩
    rcases Nat.lt_or_ge k u.statements.length with old | new
    · rw [List.getElem?_append_left old] at found
      exact gives k statement' found
    · rw [List.getElem?_append_right new, List.getElem?_singleton] at found
      split at found <;> cases found
      have last : k = idx := by omega
      subst last
      exact ⟨_, u, v, here, before, performed⟩

/-- An instruction that begins can look back on what the earlier ones have given. -/
theorem Arrives.recalls (arrives : Arrives c tx idx s) (here : tx.instructions[idx]? = some i) :
    Recalls c tx (s.began idx) := by
  obtain ⟨length, gives⟩ := arrives.statements
    (Nat.le_of_lt (List.getElem?_eq_some_iff.1 here).1)
  intro k statement found
  refine ⟨?_, gives k statement found⟩
  have inside : k < s.statements.length := (List.getElem?_eq_some_iff.1 found).1
  exact length ▸ inside

end JigLedger.Engine
