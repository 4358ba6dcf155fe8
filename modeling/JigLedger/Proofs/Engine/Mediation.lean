import JigLedger.Proofs.Engine.Soundness

/-!
# Locks mediate every use of a jig

A touched jig is used by calling one of its methods, by replacing its lock, and by spending it as a
coin. Its lock is asked each time, before anything else happens: it is the lock that the jig has at
that moment, and it is asked for the identity on top of the stack of calls and for those whose
signatures cover the instruction that runs. No other event changes the lock of a touched jig.
-/

namespace JigLedger.Engine

/-! ### Signatures -/

/-- A valid signature of the holder of an address covers an instruction of a transaction. -/
def SignedBy (v : Verifier) (tx : Transaction) (a : Address) (instruction : Nat) : Prop :=
  ∃ idx i signature key coverage position message,
    tx.instructions[idx]? = some i ∧
    signature? tx.size idx i = some (signature, key, coverage, position) ∧
    coverage.covers instruction = true ∧
    tx.signingHash position = .ok message ∧
    v.verify signature message.bytes key = true ∧
    v.addressOf key = .ok a

/-- A signature that has been checked is valid, and its signer has the address of the key. -/
theorem checkSignature_eq_ok {v : Verifier} {tx : Transaction} {idx : Nat} {signature key : Bytes}
    {coverage : Coverage} {position : Nat} {signer : Signer}
    (h : checkSignature v tx idx signature key coverage position = .ok signer) :
    ∃ message, tx.signingHash position = .ok message ∧
      v.verify signature message.bytes key = true ∧ v.addressOf key = .ok signer.address ∧
      signer.coverage = coverage := by
  simp only [checkSignature, bind_eq_ok, mapError_eq_ok] at h
  obtain ⟨message, hm, checked⟩ := h
  split at checked
  · cases checked
  case isFalse valid =>
    obtain ⟨a, ha, returned⟩ := bind_eq_ok.1 checked
    cases returned
    exact ⟨message, hm, by simpa using valid, mapError_eq_ok.1 ha, rfl⟩

/-- Every signer that is found has a valid signature in the instructions that were searched. -/
theorem mem_signersFrom {v : Verifier} {tx : Transaction} {signer : Signer} :
    ∀ {instructions : List Instruction} {idx : Nat} {found : List Signer},
      signersFrom v tx idx instructions = .ok found → signer ∈ found →
      ∃ offset i signature key position message,
        instructions[offset]? = some i ∧
        signature? tx.size (idx + offset) i = some (signature, key, signer.coverage, position) ∧
        tx.signingHash position = .ok message ∧
        v.verify signature message.bytes key = true ∧ v.addressOf key = .ok signer.address
  | [], _, _, h, mem => by
    cases h
    cases mem
  | i :: rest, idx, found, h, mem => by
    have later {found : List Signer} (h : signersFrom v tx (idx + 1) rest = .ok found)
        (mem : signer ∈ found) :
        ∃ offset j signature key position message,
          (i :: rest)[offset]? = some j ∧
          signature? tx.size (idx + offset) j = some (signature, key, signer.coverage, position) ∧
          tx.signingHash position = .ok message ∧
          v.verify signature message.bytes key = true ∧ v.addressOf key = .ok signer.address := by
      obtain ⟨offset, j, signature, key, position, message, hj, hs, valid⟩ := mem_signersFrom h mem
      refine ⟨offset + 1, j, signature, key, position, message, hj, ?_, valid⟩
      rwa [show idx + (offset + 1) = idx + 1 + offset by omega]
    unfold signersFrom at h
    rcases hs : signature? tx.size idx i with _ | ⟨signature, key, coverage, position⟩ <;>
      simp only [hs] at h
    · exact later h mem
    rcases hc : checkSignature v tx idx signature key coverage position with e | first <;>
      rw [hc] at h
    · cases h
    rcases hr : signersFrom v tx (idx + 1) rest with e | others <;> rw [hr] at h
    · cases h
    cases h
    rcases List.mem_cons.1 mem with rfl | mem
    · obtain ⟨message, hm, valid, ha, rfl⟩ := checkSignature_eq_ok hc
      exact ⟨0, i, signature, key, position, message, rfl, hs, hm, valid, ha⟩
    · exact later hr mem

/-- Who is taken to have signed an instruction has a valid signature that covers it. -/
theorem signedBy_of_isSignedBy {env : Env} {tx : Transaction} {c : Context}
    (h : contextOf env tx = .ok c) {v : Scene} {a : Address}
    (signed : (v.authority c).isSignedBy a = true) : SignedBy env.verifier tx a v.current := by
  unfold contextOf at h
  rcases hh : tx.hash with fault | txHash <;> rw [hh] at h
  · cases h
  rcases hs : signers env.verifier tx with e | found <;> rw [hs] at h
  · cases h
  cases h
  obtain ⟨signer, mem, hsigner⟩ := List.any_eq_true.1 signed
  simp only [Bool.and_eq_true, decide_eq_true_eq] at hsigner
  obtain ⟨rfl, covers⟩ := hsigner
  obtain ⟨idx, i, signature, key, position, message, hi, hsig, hm, valid, ha⟩ :=
    mem_signersFrom hs mem
  rw [Nat.zero_add] at hsig
  exact ⟨idx, i, signature, key, _, position, message, hi, hsig, covers, hm, valid, ha⟩

/-! ### Uses of a touched jig -/

/-- What is done with a touched jig. -/
inductive Use where
  | call
  | relock
  | spend

/-- What an event does with a touched jig, and the index of the jig. -/
def Event.use? : Event → Option (Nat × Use)
  | .entered (.method idx) _ _ _ => some (idx, .call)
  | .relocked idx _ => some (idx, .relock)
  | .spent idx => some (idx, .spend)
  | _ => none

/-- The lock of a jig permits a use by the code that is running. -/
def Use.isGranted (jig : TouchedJig) (auth : Authority) : Use → Bool
  | call => jig.lock.canReceiveCalls auth
  | relock => jig.lock.canBeChanged auth jig.origin
  | spend => jig.lock.isOpenTo auth

/-- Nobody can use a jig that is unowned or frozen. -/
theorem Use.lock_of_isGranted {use : Use} {jig : TouchedJig} {auth : Authority}
    (h : use.isGranted jig auth = true) : jig.lock ≠ .unowned ∧ jig.lock ≠ .frozen := by
  cases use <;> constructor <;> intro hl <;>
    simp [isGranted, hl, Lock.canReceiveCalls, Lock.canBeChanged, Lock.isOpenTo] at h

/-- A jig that belongs to an address can only be used with a signature of its holder. -/
theorem Use.isSignedBy_of_isGranted {use : Use} {jig : TouchedJig} {auth : Authority} {a : Address}
    (h : use.isGranted jig auth = true) (hl : jig.lock = .address a) :
    auth.isSignedBy a = true := by
  cases use <;>
    simpa [isGranted, hl, Lock.canReceiveCalls, Lock.canBeChanged, Lock.isOpenTo] using h

/-- Locks have mediated an event: a use was granted by the lock that the jig had when it happened,
and the locks of all other touched jigs are what they were. -/
structure Mediated (env : Env) (tx : Transaction) (c : Context) (v : Scene) (e : Event) : Prop where
  granted : ∀ idx use, e.use? = some (idx, use) → ∃ jig, v.jigs[idx]? = some jig ∧
    use.isGranted jig (v.authority c) = true ∧ jig.lock ≠ .unowned ∧ jig.lock ≠ .frozen ∧
    ∀ a, jig.lock = .address a → SignedBy env.verifier tx a v.current
  /-- The frame of a call is that of the jig whose lock was asked. -/
  frame : ∀ idx frame callee args, e = .entered (.method idx) frame callee args →
    ∃ jig, v.jigs[idx]? = some jig ∧ frame = ⟨.jig jig.origin, jig.home⟩
  kept : ∀ idx jig, v.jigs[idx]? = some jig → ∃ lock,
    (v.after e).jigs[idx]? = some { jig with lock := lock } ∧
    (lock = jig.lock ∨ e = .relocked idx lock ∨ e = .spent idx ∧ lock = .frozen)

/-- What was due was granted by the lock of the jig. -/
theorem Due.granted {c : Context} {v : Scene} {e : Event} (h : Due c v e) {idx : Nat} {use : Use}
    (hu : e.use? = some (idx, use)) :
    ∃ jig, v.jigs[idx]? = some jig ∧ use.isGranted jig (v.authority c) = true := by
  cases e
  case entered entry frame callee args =>
    cases entry
    case method i =>
      cases hu
      obtain ⟨⟨jig, hj, -, granted⟩, -⟩ := h
      exact ⟨jig, hj, granted⟩
    all_goals cases hu
  case relocked i lock =>
    cases hu
    exact h
  case spent i =>
    cases hu
    exact h
  all_goals cases hu

/-- Replacing the lock of one jig leaves the others as they were. -/
theorem getElem?_modify_lock {jigs : List TouchedJig} {idx : Nat} {jig : TouchedJig}
    (h : jigs[idx]? = some jig) (i : Nat) (lock : Lock) :
    (jigs.modify i fun j => { j with lock := lock })[idx]? =
      some { jig with lock := if i = idx then lock else jig.lock } := by
  rw [List.getElem?_modify, h]
  split <;> simp_all

/-- Only a new lock and a spent coin change the lock of a touched jig. -/
theorem Scene.lock_after {v : Scene} {idx : Nat} {jig : TouchedJig}
    (h : v.jigs[idx]? = some jig) (e : Event) :
    ∃ lock, (v.after e).jigs[idx]? = some { jig with lock := lock } ∧
      (lock = jig.lock ∨ e = .relocked idx lock ∨ e = .spent idx ∧ lock = .frozen) := by
  cases e
  case made new =>
    refine ⟨jig.lock, ?_, .inl rfl⟩
    rw [Scene.after, List.getElem?_append_left (List.getElem?_eq_some_iff.1 h).1, h]
  case relocked i lock =>
    refine ⟨_, getElem?_modify_lock h i lock, ?_⟩
    by_cases hi : i = idx
    · simp [hi]
    · simp [hi]
  case spent i =>
    refine ⟨_, getElem?_modify_lock h i .frozen, ?_⟩
    by_cases hi : i = idx
    · simp [hi]
    · simp [hi]
  all_goals exact ⟨jig.lock, h, .inl rfl⟩

end JigLedger.Engine
