import JigLedger.Proofs.Engine.Amid
import JigLedger.Proofs.Engine.Mediation
import JigLedger.Proofs.Wire.Transaction

/-!
# Signatures cover exactly what they sign

All signatures of a transaction are checked before anything runs. The first one that is not valid
ends the transaction, and the error names it. If all are valid, whoever asks while an instruction
runs finds exactly those who have signed it: the signers of the whole transaction, wherever their
signatures stand, and those whose signatures over the instructions before them stand later.
-/

namespace JigLedger

namespace Verifier

/-- The holder of every key with a valid signature has an address. -/
def FindsHolders (v : Verifier) : Prop :=
  ∀ signature message key, v.verify signature message key = true → ∃ a, v.addressOf key = .ok a

theorem findsHolders_ed25519 : ed25519.FindsHolders := by
  intro signature message key valid
  rcases hk : Ed25519.key? key with _ | _
  · have invalid : Ed25519.verify signature message key = false := by
      unfold Ed25519.verify
      rw [hk]
      cases Block.ofBytes? 32 (signature.take 32) <;>
        cases Block.ofBytes? 32 (signature.drop 32) <;> rfl
    rw [show Verifier.ed25519.verify = Ed25519.verify from rfl, invalid] at valid
    cases valid
  · exact ⟨.ofPublicKey key, by simp [Verifier.ed25519, Ed25519.addressOf, hk]⟩

end Verifier

namespace Engine

variable {v : Verifier} {tx : Transaction} {env : Env} {c : Context} {s t u : Session}

/-! ### What a transaction says about its signatures -/

/-- A signature over the first `n` instructions of a transaction is valid. -/
def Verifies (v : Verifier) (tx : Transaction) (n : Nat) (signature key : Bytes) : Prop :=
  ∃ message, tx.signingHash n = .ok message ∧ v.verify signature message.bytes key = true

/-- The instruction with an index is a signature that is not valid: one over all instructions, or
one over those before it. -/
inductive Invalid (v : Verifier) (tx : Transaction) (idx : Nat) : Prop where
  | sign {signature key : Bytes} (here : tx.instructions[idx]? = some (.sign signature key))
      (invalid : ¬ Verifies v tx tx.size signature key)
  | signTo {signature key : Bytes} (here : tx.instructions[idx]? = some (.signTo signature key))
      (invalid : ¬ Verifies v tx idx signature key)

/-- The holder of an address has signed the instruction with an index: there is a signature of the
whole transaction, or a later one over the instructions before it. -/
inductive HasSigned (v : Verifier) (tx : Transaction) (a : Address) (instruction : Nat) : Prop where
  | sign {idx : Nat} {signature key : Bytes}
      (here : tx.instructions[idx]? = some (.sign signature key)) (holder : v.addressOf key = .ok a)
  | signTo {idx : Nat} {signature key : Bytes}
      (here : tx.instructions[idx]? = some (.signTo signature key)) (later : instruction < idx)
      (holder : v.addressOf key = .ok a)

/-! ### Checking the signatures -/

/-- An instruction that would stand at an index is a signature that is not valid. -/
def Flawed (v : Verifier) (tx : Transaction) (idx : Nat) (i : Instruction) : Prop :=
  ∃ signature key coverage position,
    signature? tx.size idx i = some (signature, key, coverage, position) ∧
      ¬ Verifies v tx position signature key

theorem invalid_iff {idx : Nat} :
    Invalid v tx idx ↔ ∃ i, tx.instructions[idx]? = some i ∧ Flawed v tx idx i := by
  constructor
  · rintro (⟨here, invalid⟩ | ⟨here, invalid⟩)
    · exact ⟨_, here, _, _, _, _, rfl, invalid⟩
    · exact ⟨_, here, _, _, _, _, rfl, invalid⟩
  · rintro ⟨i, here, signature, key, coverage, position, found, invalid⟩
    cases i <;> cases found
    · exact .sign here invalid
    · exact .signTo here invalid

theorem hasSigned_iff {a : Address} {instruction : Nat} :
    HasSigned v tx a instruction ↔ ∃ idx i signature key coverage position,
      tx.instructions[idx]? = some i ∧
      signature? tx.size idx i = some (signature, key, coverage, position) ∧
      coverage.covers instruction = true ∧ v.addressOf key = .ok a := by
  constructor
  · rintro (⟨here, holder⟩ | ⟨here, later, holder⟩)
    · exact ⟨_, _, _, _, _, _, here, rfl, rfl, holder⟩
    · exact ⟨_, _, _, _, _, _, here, rfl, decide_eq_true later, holder⟩
  · rintro ⟨idx, i, signature, key, coverage, position, here, found, covers, holder⟩
    cases i <;> cases found
    · exact .sign here holder
    · exact .signTo here (of_decide_eq_true covers) holder

/-- A valid signature is accepted, and its signer is the holder of the key. -/
theorem checkSignature_of_verifies {idx position : Nat} {signature key : Bytes}
    {coverage : Coverage} {a : Address} (valid : Verifies v tx position signature key)
    (holder : v.addressOf key = .ok a) :
    checkSignature v tx idx signature key coverage position = .ok ⟨a, coverage⟩ := by
  obtain ⟨message, hm, verified⟩ := valid
  simp [checkSignature, hm, verified, holder, bind, Except.bind, Except.mapError, pure, Except.pure]

/-- A signature that is not valid is refused, if what it signs can be written. -/
theorem checkSignature_of_not_verifies {idx position : Nat} {signature key : Bytes}
    {coverage : Coverage} (writes : ∃ message, tx.signingHash position = .ok message)
    (invalid : ¬ Verifies v tx position signature key) :
    checkSignature v tx idx signature key coverage position =
      .error (.permission "invalid signature" (some idx) none none) := by
  obtain ⟨message, hm⟩ := writes
  have refused : v.verify signature message.bytes key = false :=
    Bool.eq_false_iff.2 fun verified => invalid ⟨message, hm, verified⟩
  simp only [checkSignature, hm, refused, bind, Except.bind, Except.mapError]
  rfl

section Checking

variable (finds : v.FindsHolders) {idx : Nat}

include finds

/-- The signature in an instruction that is not flawed is accepted. -/
theorem exists_checkSignature {i : Instruction} {signature key : Bytes} {coverage : Coverage}
    {position : Nat} (found : signature? tx.size idx i = some (signature, key, coverage, position))
    (sound : ¬ Flawed v tx idx i) :
    ∃ a, v.addressOf key = .ok a ∧
      checkSignature v tx idx signature key coverage position = .ok ⟨a, coverage⟩ := by
  have valid : Verifies v tx position signature key := by
    by_contra invalid
    exact sound ⟨_, _, _, _, found, invalid⟩
  obtain ⟨message, -, verified⟩ := id valid
  obtain ⟨a, holder⟩ := finds _ _ _ verified
  exact ⟨a, holder, checkSignature_of_verifies valid holder⟩

/-- An instruction without a flaw is passed over, and the instructions behind it decide. -/
theorem signersFrom_cons {i : Instruction} (rest : List Instruction) (sound : ¬ Flawed v tx idx i) :
    ∃ here : List Signer,
      signersFrom v tx idx (i :: rest) = (here ++ ·) <$> signersFrom v tx (idx + 1) rest ∧
      ∀ signature key coverage position,
        signature? tx.size idx i = some (signature, key, coverage, position) →
          ∃ a, v.addressOf key = .ok a ∧ ⟨a, coverage⟩ ∈ here := by
  rcases hs : signature? tx.size idx i with _ | ⟨signature, key, coverage, position⟩
  · refine ⟨[], ?_, nofun⟩
    simp only [signersFrom, hs, List.nil_append]
    cases signersFrom v tx (idx + 1) rest <;> rfl
  · obtain ⟨a, holder, checked⟩ := exists_checkSignature finds hs sound
    refine ⟨[⟨a, coverage⟩], ?_, ?_⟩
    · simp only [signersFrom, hs, checked]
      cases signersFrom v tx (idx + 1) rest <;> rfl
    · rintro _ _ _ _ ⟨⟩
      exact ⟨a, holder, .head _⟩

/-- The first flawed instruction ends the search with its index. -/
theorem signersFrom_of_flawed (writes : ∀ n, ∃ message, tx.signingHash n = .ok message)
    {instructions : List Instruction} {k : Nat} {i : Instruction}
    (here : instructions[k]? = some i) (flawed : Flawed v tx (idx + k) i)
    (first : ∀ j < k, ∀ i, instructions[j]? = some i → ¬ Flawed v tx (idx + j) i) :
    signersFrom v tx idx instructions =
      .error (.permission "invalid signature" (some (idx + k)) none none) := by
  induction instructions generalizing idx k with
  | nil => cases here
  | cons i' rest ih =>
    cases k with
    | zero =>
      cases here
      obtain ⟨signature, key, coverage, position, found, invalid⟩ := flawed
      rw [Nat.add_zero] at found
      simp only [signersFrom, found, checkSignature_of_not_verifies (writes position) invalid]
      rfl
    | succ k =>
      have next (j : Nat) : idx + (j + 1) = idx + 1 + j := by omega
      have sound : ¬ Flawed v tx idx i' := first 0 (Nat.succ_pos k) i' rfl
      obtain ⟨_, search, -⟩ := signersFrom_cons finds rest sound
      rw [next] at flawed
      have ended := ih here flawed fun j hj i hi => by
        rw [← next]
        exact first (j + 1) (Nat.succ_lt_succ hj) i hi
      rw [search, ended, next k]
      rfl

/-- Without a flaw the search succeeds and finds everybody who has signed. -/
theorem signersFrom_of_sound {instructions : List Instruction}
    (sound : ∀ k i, instructions[k]? = some i → ¬ Flawed v tx (idx + k) i) :
    ∃ found, signersFrom v tx idx instructions = .ok found ∧
      ∀ k i signature key coverage position, instructions[k]? = some i →
        signature? tx.size (idx + k) i = some (signature, key, coverage, position) →
          ∃ a, v.addressOf key = .ok a ∧ ⟨a, coverage⟩ ∈ found := by
  induction instructions generalizing idx with
  | nil => exact ⟨[], rfl, nofun⟩
  | cons i rest ih =>
    have next (k : Nat) : idx + (k + 1) = idx + 1 + k := by omega
    have first : ¬ Flawed v tx idx i := sound 0 i rfl
    obtain ⟨here, search, signed⟩ := signersFrom_cons finds rest first
    obtain ⟨others, searched, signed'⟩ := @ih (idx + 1) fun k i hi => by
      rw [← next]
      exact sound (k + 1) i hi
    refine ⟨here ++ others, by rw [search, searched]; rfl, ?_⟩
    rintro (_ | k) i signature key coverage position hi found
    · cases hi
      obtain ⟨a, holder, mem⟩ := signed _ _ _ _ found
      exact ⟨a, holder, List.mem_append_left _ mem⟩
    · rw [next] at found
      obtain ⟨a, holder, mem⟩ := signed' k i signature key coverage position hi found
      exact ⟨a, holder, List.mem_append_right _ mem⟩

end Checking

/-! ### Before anything runs -/

/-- A transaction is refused with an error, and none of its instructions runs: there is not even a
session. -/
def Refuses (env : Env) (tx : Transaction) (e : ExecError) : Prop :=
  contextOf env tx = .error e ∧ execute env tx = (.error e, [])

theorem refuses_of_contextOf {e : ExecError} (h : contextOf env tx = .error e) :
    Refuses env tx e :=
  ⟨h, by rw [execute, h]⟩

/-- A transaction that cannot be written is refused before its signatures are looked at. -/
theorem refuses_of_toBytes {fault : Wire.Fault} (h : tx.toBytes = .error fault) :
    Refuses env tx (.failed (Transaction.encodeMessage fault)) := by
  refine refuses_of_contextOf ?_
  simp [contextOf, Transaction.hash, h, bind, Except.bind, Except.mapError]

/-- The context of a transaction that can be written depends on its signatures. -/
theorem contextOf_of_toBytes {bs : Bytes} (h : tx.toBytes = .ok bs) :
    contextOf env tx = (⟨env, Sha256.digest bs, ·⟩) <$> signers env.verifier tx := by
  simp only [contextOf, Transaction.hash, h, bind, Except.bind, pure, Except.pure, Except.mapError]
  cases signers env.verifier tx <;> rfl

/-- The first signature that is not valid is refused. -/
theorem refuses_of_invalid (finds : env.verifier.FindsHolders) {bs : Bytes}
    (h : tx.toBytes = .ok bs) {idx : Nat} (invalid : Invalid env.verifier tx idx)
    (first : ∀ j < idx, ¬ Invalid env.verifier tx j) :
    Refuses env tx (.permission "invalid signature" (some idx) none none) := by
  refine refuses_of_contextOf ?_
  obtain ⟨i, here, flawed⟩ := invalid_iff.1 invalid
  have search : signersFrom env.verifier tx 0 tx.instructions = _ := signersFrom_of_flawed finds
    (Transaction.exists_signingHash h) here (by rwa [Nat.zero_add]) fun j hj i hi flawed => by
      rw [Nat.zero_add] at flawed
      exact first j hj (invalid_iff.2 ⟨i, hi, flawed⟩)
  rw [contextOf_of_toBytes h, signers, search, Nat.zero_add]
  rfl

/-- If all signatures are valid, those who count as signers in a session are exactly those who have
signed the instruction that is current in it. -/
theorem exists_contextOf (finds : env.verifier.FindsHolders) {bs : Bytes}
    (h : tx.toBytes = .ok bs) (valid : ∀ idx, ¬ Invalid env.verifier tx idx) :
    ∃ c, contextOf env tx = .ok c ∧ ∀ (s : Session) a,
      (s.authority c).isSignedBy a = true ↔ HasSigned env.verifier tx a s.current := by
  have sound (k : Nat) (i : Instruction) (hi : tx.instructions[k]? = some i) :
      ¬ Flawed env.verifier tx (0 + k) i := by
    rw [Nat.zero_add]
    exact fun flawed => valid k (invalid_iff.2 ⟨i, hi, flawed⟩)
  obtain ⟨found, searched, all⟩ := signersFrom_of_sound finds sound
  have context : contextOf env tx = .ok ⟨env, Sha256.digest bs, found⟩ := by
    rw [contextOf_of_toBytes h, signers, searched]
    rfl
  refine ⟨_, context, fun s a => ?_⟩
  rw [hasSigned_iff, Session.authority, List.any_eq_true]
  simp only [Bool.and_eq_true, decide_eq_true_eq]
  constructor
  · rintro ⟨signer, mem, rfl, covers⟩
    obtain ⟨k, i, signature, key, position, _, hi, hs, -, -, holder⟩ := mem_signersFrom searched mem
    rw [Nat.zero_add] at hs
    exact ⟨k, i, signature, key, _, position, hi, hs, covers, holder⟩
  · rintro ⟨k, i, signature, key, coverage, position, hi, hs, covers, holder⟩
    rw [← Nat.zero_add k] at hs
    obtain ⟨a', holder', mem⟩ := all k i signature key coverage position hi hs
    obtain rfl : a' = a := Except.ok.inj (holder'.symm.trans holder)
    exact ⟨_, mem, rfl, covers⟩

/-! ### While an instruction runs -/

/-- A computation adds to the journal, however it ends. -/
def Logs {α : Type} (m : Engine α) : Prop := ∀ s, s.journal <:+ (runFrom s m).2.journal

namespace Logs

variable {α β : Type}

theorem of_stays {m : Engine α} (h : Stays m) : Logs m := fun s => (h s).suffix

/-- What the first part of a computation adds stays when the second part runs. -/
theorem first {m : Engine α} {f : α → Engine β} (hf : ∀ a, Logs (f a)) (s : Session) :
    (runFrom s m).2.journal <:+ (runFrom s (m >>= f)).2.journal := by
  rw [runFrom_bind]
  rcases runFrom s m with ⟨e | a, t⟩
  · exact List.suffix_rfl
  · exact hf a t

theorem bind {m : Engine α} {f : α → Engine β} (hm : Logs m) (hf : ∀ a, Logs (f a)) :
    Logs (m >>= f) := fun s => (hm s).trans (first hf s)

/-- A failure that goes on with another text leaves the same session. -/
theorem snd_rethrow {m : Engine α} {g : Failure → Failure} (s : Session) :
    (runFrom s (tryCatch m fun e => throw (g e))).2 = (runFrom s m).2 := by
  rw [runFrom_tryCatch]
  rcases runFrom s m with ⟨e | a, t⟩ <;> rfl

end Logs

/-- The journal of a step goes on where the instruction has ended. -/
theorem suffix_step (s : Session) (idx : Nat) (i : Instruction) :
    (runFrom (s.began idx) ((host c).instruction i)).2.journal <:+
      (runFrom s (step (host c) idx i)).2.journal := by
  rw [step, runFrom_bind_of_ok (runFrom_get s), runFrom_bind_of_ok (runFrom_modify s _)]
  refine Logs.first (fun statement => ?_) (s.began idx)
  exact (Logs.bind fun _ => List.suffix_rfl) fun _ => Logs.of_stays
    (ReadsOnly.get.bind fun _ => .pure _).stays

theorem logs_step (idx : Nat) (i : Instruction) : Logs (step (host c) idx i) := by
  intro s
  have began : s.journal <:+ (s.began idx).journal := ⟨[_], rfl⟩
  exact began.trans ((Stays.instruction i (s.began idx)).suffix.trans (suffix_step s idx i))

theorem logs_steps : ∀ (instructions : List Instruction) (idx : Nat),
    Logs (steps (host c) idx instructions)
  | [], _ => .of_stays (ReadsOnly.pure _).stays
  | i :: rest, idx => by
    refine Logs.bind (fun s => ?_) fun fuel => (logs_steps rest (idx + 1)).bind
      fun more => .of_stays (ReadsOnly.pure _).stays
    rw [Logs.snd_rethrow]
    exact logs_step idx i s

/-- What happens while an instruction runs is part of what happens in all steps, if the instructions
before it succeed. -/
theorem suffix_steps {instructions : List Instruction} {k idx : Nat} {i : Instruction}
    {fuel : List Nat} (here : instructions[k]? = some i)
    (run : runFrom s (steps (host c) idx (instructions.take k)) = (.ok fuel, u)) :
    (runFrom (u.began (idx + k)) ((host c).instruction i)).2.journal <:+
      (runFrom s (steps (host c) idx instructions)).2.journal := by
  induction instructions generalizing k idx s fuel with
  | nil => cases here
  | cons i' rest ih =>
    have later (first : Nat) : Logs (steps (host c) (idx + 1) rest >>= fun more =>
        pure (first :: more)) :=
      (logs_steps rest (idx + 1)).bind fun more => .of_stays (ReadsOnly.pure _).stays
    cases k with
    | zero =>
      cases here
      cases run
      refine (suffix_step u idx i).trans ?_
      rw [steps, ← Logs.snd_rethrow u]
      exact Logs.first later u
    | succ k =>
      rw [List.take_succ_cons, steps] at run
      obtain ⟨first, t, stepped, running⟩ := runFrom_bind_eq_ok run
      obtain ⟨more, _, ran, returned⟩ := runFrom_bind_eq_ok running
      cases returned
      have inner := ih here ran
      rw [show idx + 1 + k = idx + (k + 1) by omega] at inner
      rw [steps, runFrom_bind_of_ok stepped]
      exact inner.trans (Logs.first (fun more => .of_stays (ReadsOnly.pure _).stays) t)

/-- What happens in the steps of a transaction is part of what happens in its run. -/
theorem suffix_runTransaction (c : Context) (tx : Transaction) :
    (runFrom (.start c.env.config.fuelLimit tx.size)
      (steps (host c) 0 tx.instructions)).2.journal <:+ (runTransaction c tx).2.journal :=
  Logs.first (fun _ => .of_stays ((Quietly.finalize c).stays.bind fun _ =>
    (ReadsOnly.get.bind fun _ => .pure _).stays)) _

/-- The session in which the instruction with an index begins: those before it have succeeded. -/
def Arrives (c : Context) (tx : Transaction) (idx : Nat) (s : Session) : Prop :=
  ∃ fuel, runFrom (.start c.env.config.fuelLimit tx.size)
    (steps (host c) 0 (tx.instructions.take idx)) = (.ok fuel, s)

/-- Whoever asks from one session on to a later one, at whatever depth of calls, finds that exactly
those have signed who have signed the instruction with an index. -/
structure Upheld (v : Verifier) (tx : Transaction) (c : Context) (idx : Nat) (s t : Session) :
    Prop where
  /-- It is a part of the run of the transaction. -/
  journal : t.journal <:+ (runTransaction c tx).2.journal
  shows : Shows t.scene t
  /-- At each event in between. -/
  events : ∀ e past, e :: past <:+ t.journal → s.journal <:+ past → ∀ a,
    ((Scene.of past).authority c).isSignedBy a = true ↔ HasSigned v tx a idx
  /-- In the end, also if a failure or the end of the fuel has stopped it. -/
  ended : ∀ a, (t.authority c).isSignedBy a = true ↔ HasSigned v tx a idx

/-- While an instruction runs, exactly those count as signers who have signed it. -/
theorem upheld_instruction
    (exact : ∀ (s : Session) a,
      (s.authority c).isSignedBy a = true ↔ HasSigned v tx a s.current)
    {idx : Nat} {i : Instruction} (here : tx.instructions[idx]? = some i)
    (arrives : Arrives c tx idx s) :
    Upheld v tx c idx (s.began idx) (runFrom (s.began idx) ((host c).instruction i)).2 := by
  obtain ⟨fuel, run⟩ := arrives
  have stays := Stays.instruction (c := c) i (s.began idx)
  have part := suffix_steps here run
  rw [Nat.zero_add] at part
  refine ⟨part.trans (suffix_runTransaction c tx), ?_, fun e past happens since a => ?_,
    fun a => ?_⟩
  · obtain ⟨s₀, idle₀, safe⟩ := Safe.steps (tx.instructions.take idx) 0 _
      (lawful_start c c.env.config.fuelLimit tx.size) (idle_start _ _)
    obtain ⟨lawful, -, restored⟩ := safe.of_ok run
    have idle := idle₀.restored restored
    have began : Lawful c (s.began idx) :=
      lawful.began ⟨idle.frames, idle.making, idle.starting, idle.running⟩
    exact ((Built.instruction i).safe (isSafe_invoker c) _ began (.none _)).lawful.shows
  · -- A session with the same current instruction has the same signers.
    have current : (Scene.of past).current = idx := stays.scene_current happens since
    exact current ▸ exact { s with current := (Scene.of past).current } a
  · have ended := exact (runFrom (s.began idx) ((host c).instruction i)).2 a
    rw [stays.current] at ended
    exact ended

/-- The coverage of signatures is exact. A transaction that cannot be written is refused at once.
Otherwise its first signature that is not valid is refused before anything runs; and if there is
none, then while an instruction runs, at any depth of calls, exactly those count as signers who have
signed the whole transaction, or the instructions before a later signature of theirs. -/
theorem signatures_cover_exactly (env : Env) (tx : Transaction)
    (finds : env.verifier.FindsHolders) :
    (∀ fault, tx.toBytes = .error fault →
      Refuses env tx (.failed (Transaction.encodeMessage fault))) ∧
    (∀ bs, tx.toBytes = .ok bs →
      (∀ idx, Invalid env.verifier tx idx → (∀ j < idx, ¬ Invalid env.verifier tx j) →
        Refuses env tx (.permission "invalid signature" (some idx) none none)) ∧
      ((∀ idx, ¬ Invalid env.verifier tx idx) → ∃ c, contextOf env tx = .ok c ∧
        ∀ idx i, tx.instructions[idx]? = some i → ∀ s, Arrives c tx idx s →
          Upheld env.verifier tx c idx (s.began idx)
            (runFrom (s.began idx) ((host c).instruction i)).2)) := by
  refine ⟨fun fault h => refuses_of_toBytes h, fun bs h => ⟨fun idx invalid first => ?_,
    fun valid => ?_⟩⟩
  · exact refuses_of_invalid finds h invalid first
  · obtain ⟨c, context, exact⟩ := exists_contextOf finds h valid
    exact ⟨c, context, fun idx i here s arrives => upheld_instruction exact here arrives⟩

/-- An Ed25519 signature without bytes is refused. Where every signature with bytes is valid, a
transaction with one signature of each kind comes to run the instruction in between. -/
theorem signatures_cover_exactly_of_two :
    Refuses ⟨{}, .empty, .empty, .disabled, .ed25519⟩ ⟨[.signTo [] []]⟩
      (.permission "invalid signature" (some 0) none none) ∧
    ∃ env tx c s,
      (∀ signature message key, env.verifier.verify signature message key = !signature.isEmpty) ∧
      tx = ⟨[.sign [1] [2], .fund 0, .signTo [1] [3]]⟩ ∧ contextOf env tx = .ok c ∧
      Arrives c tx 1 s ∧ Upheld env.verifier tx c 1 (s.began 1)
        (runFrom (s.began 1) ((host c).instruction (.fund 0))).2 := by
  constructor
  · refine ((signatures_cover_exactly _ _ Verifier.findsHolders_ed25519).2 _ rfl).1 0 ?_ nofun
    refine .signTo rfl ?_
    rintro ⟨message, -, valid⟩
    cases valid
  · let env : Env := ⟨{}, .empty, .empty, .disabled,
      ⟨fun signature _ _ => !signature.isEmpty, fun key => .ok (.ofPublicKey key)⟩⟩
    let tx : Transaction := ⟨[.sign [1] [2], .fund 0, .signTo [1] [3]]⟩
    have finds : env.verifier.FindsHolders := fun _ _ key _ => ⟨.ofPublicKey key, rfl⟩
    obtain ⟨bs, written⟩ : ∃ bs, tx.toBytes = .ok bs := ⟨_, rfl⟩
    have verifies (n : Nat) (key : Bytes) : Verifies env.verifier tx n [1] key := by
      obtain ⟨message, hm⟩ := Transaction.exists_signingHash written n
      exact ⟨message, hm, rfl⟩
    have valid (idx : Nat) : ¬ Invalid env.verifier tx idx := by
      rintro (⟨here, invalid⟩ | ⟨here, invalid⟩) <;> rcases idx with _ | _ | _ | idx <;> cases here <;>
        exact invalid (verifies _ _)
    obtain ⟨c, context, upheld⟩ :=
      ((signatures_cover_exactly env tx finds).2 bs written).2 valid
    have arrives : Arrives c tx 1 _ := ⟨_, rfl⟩
    exact ⟨env, tx, c, _, fun _ _ _ => rfl, rfl, context, arrives, upheld 1 _ rfl _ arrives⟩

end Engine

end JigLedger
