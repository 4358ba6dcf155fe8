import JigLedger.Proofs.Wire.Received

/-!
# What a signature covers

The bytes that are signed at a position determine the instructions before this position but for the
bytes of their signatures, and are determined by them. So a signature cannot be moved to other
instructions, and those who sign do not have to wait for each other.
-/

namespace JigLedger

open Wire

namespace Instruction

/-- The instructions are equal, or sign with the same key. -/
inductive Alike : Instruction → Instruction → Prop
  | same (i : Instruction) : Alike i i
  | sign (sig sig' key : Bytes) : Alike (.sign sig key) (.sign sig' key)
  | signTo (sig sig' key : Bytes) : Alike (.signTo sig key) (.signTo sig' key)

/-- Without the bytes of their signatures, instructions are equal if they are alike. -/
theorem blanked_eq_iff {i j : Instruction} : i.blanked = j.blanked ↔ i.Alike j := by
  constructor
  · intro same
    cases i
    case sign sig key =>
      cases j <;> cases same
      exact .sign sig _ key
    case signTo sig key =>
      cases j <;> cases same
      exact .signTo sig _ key
    all_goals
      cases j <;> cases same
      exact .same _
  · rintro (_ | _ | _) <;> rfl

end Instruction

namespace Transaction

variable {tx tx' : Transaction} {n n' : Nat} {bs : Bytes}

/-- The instructions before the first position are as many as those before the second one, and each
of them is like the one at its place. -/
def Alike (tx : Transaction) (n : Nat) (tx' : Transaction) (n' : Nat) : Prop :=
  List.Forall₂ Instruction.Alike (tx.instructions.take (min n tx.size))
    (tx'.instructions.take (min n' tx'.size))

/-- The transaction with another instruction at one position. -/
def replace (tx : Transaction) (i : Nat) (j : Instruction) : Transaction :=
  ⟨tx.instructions.set i j⟩

theorem covered_eq_iff : tx.covered n = tx'.covered n' ↔ tx.Alike n tx' n' := by
  rw [Alike, size, size, ← List.take_eq_take_min, ← List.take_eq_take_min, covered, covered,
    ← List.forall₂_eq_eq_eq, List.forall₂_map_left_iff, List.forall₂_map_right_iff]
  simp only [Instruction.blanked_eq_iff]

/-- The same bytes are signed for instructions that are alike, and only for them. -/
theorem signingPayload_eq_ok (h : tx.signingPayload n = .ok bs) :
    tx'.signingPayload n' = .ok bs ↔ tx.Alike n tx' n' := by
  rw [← covered_eq_iff]
  constructor
  · intro h'
    exact Codec.faithful_instruction.list.injective h h'
  · intro same
    rw [signingPayload, ← same]
    exact h

theorem covered_replace (i : Nat) (j : Instruction) :
    (tx.replace i j).covered n = (tx.covered n).set i j.blanked := by
  rw [covered, covered, replace, List.take_set, List.map_set]

/-- A new instruction is covered as the old one was if it is not covered at all or is like the old
one. -/
theorem covered_replace_eq_iff {i : Nat} {a : Instruction} (here : tx.instructions[i]? = some a)
    (j : Instruction) : (tx.replace i j).covered n = tx.covered n ↔ n ≤ i ∨ a.Alike j := by
  rw [covered_replace, ← Instruction.blanked_eq_iff]
  rcases Nat.lt_or_ge i n with before | behind
  · have at_i : (tx.covered n)[i]? = some a.blanked := by
      rw [covered, List.getElem?_map, List.getElem?_take_of_lt before, here]
      rfl
    obtain ⟨inside, value⟩ := List.getElem?_eq_some_iff.1 at_i
    constructor
    · intro same
      have there : ((tx.covered n).set i j.blanked)[i]? = some j.blanked :=
        List.getElem?_set_self inside
      rw [same, at_i] at there
      exact .inr (Option.some.inj there)
    · rintro (late | same)
      · omega
      · rw [← same, ← value, List.set_getElem_self]
  · have short : (tx.covered n).length ≤ i := by
      rw [covered, List.length_map]
      exact Nat.le_trans (List.length_take_le _ _) behind
    simp [List.set_eq_of_length_le short, behind]

/-- A transaction whose lengths fit has something to sign at each position, and the message is its
digest. Two positions, of two transactions, have the same bytes to sign if and only if the
instructions before them are equal but for the bytes of signatures. So another instruction at a
place changes what is signed at all positions behind it, unless only the bytes of a signature are
new, and never what is signed at or before its place. -/
theorem signing_binds :
    (∀ (tx : Transaction) (n : Nat), tx.Fits → ∃ bs, tx.signingPayload n = .ok bs) ∧
      ∀ (tx : Transaction) (n : Nat) (bs : Bytes), tx.signingPayload n = .ok bs →
        tx.signingHash n = .ok (Sha256.digest bs) ∧
        (∀ (tx' : Transaction) (n' : Nat), tx'.signingPayload n' = .ok bs ↔ tx.Alike n tx' n') ∧
        ∀ (i : Nat) (a j : Instruction), tx.instructions[i]? = some a →
          ((tx.replace i j).signingPayload n = .ok bs ↔ n ≤ i ∨ a.Alike j) := by
  constructor
  · intro tx n fits
    obtain ⟨bs, written⟩ := exists_toBytes.2 fits
    obtain ⟨message, hashed⟩ := exists_signingHash written n
    obtain ⟨payload, written, -⟩ := bind_eq_ok.1 hashed
    exact ⟨payload, written⟩
  · intro tx n bs written
    refine ⟨bind_eq_ok.2 ⟨bs, written, rfl⟩, fun tx' n' => signingPayload_eq_ok written, ?_⟩
    intro i a j here
    rw [signingPayload_eq_ok written, ← covered_eq_iff, eq_comm]
    exact covered_replace_eq_iff here j

/-- Two coins are spent, and the first of them is signed for. -/
def signedFunds : Transaction := ⟨[.fund 0, .signTo [1, 2] [7], .fund 1]⟩

theorem signing_binds_signedFunds :
    ∃ bs, signedFunds.signingPayload 2 = .ok bs ∧
      (signedFunds.replace 1 (.signTo [] [7])).signingPayload 2 = .ok bs ∧
      (signedFunds.replace 2 (.fund 9)).signingPayload 2 = .ok bs ∧
      (signedFunds.replace 1 (.signTo [1, 2] [8])).signingPayload 2 ≠ .ok bs ∧
      (signedFunds.replace 0 (.fund 9)).signingPayload 2 ≠ .ok bs := by
  obtain ⟨exists_payload, binds⟩ := signing_binds
  have fits : signedFunds.Fits := exists_toBytes.1 ⟨_, rfl⟩
  obtain ⟨bs, written⟩ := exists_payload signedFunds 2 fits
  obtain ⟨-, -, replaced⟩ := binds _ _ _ written
  refine ⟨bs, written, (replaced 1 _ _ rfl).2 (.inr (.signTo ..)),
    (replaced 2 _ _ rfl).2 (.inl (Nat.le_refl 2)), ?_, ?_⟩
  · intro same
    rcases (replaced 1 _ _ rfl).1 same with late | alike
    · omega
    · cases alike
  · intro same
    rcases (replaced 0 _ _ rfl).1 same with late | alike
    · omega
    · cases alike

end Transaction

end JigLedger
