import JigLedger.Ledger
import JigLedger.Proofs.Engine.Provenance

/-!
# Histories of a ledger

A ledger changes by mints, deployments and commits. Transactions are executed in between, and their
results may be committed at any time later, in any order, and more than once. As long as the
executions that are committed have kept their jigs apart, the ledger stays sound, and it goes on
knowing every package and every jig with its class.
-/

namespace JigLedger.Ledger

variable {p : Policy} {l l' l'' : Ledger}

/-! ### Sound ledgers -/

/-- A ledger with a sound registry and a consistent store. -/
structure Sound (l : Ledger) : Prop where
  registry : l.registry.Sound
  store : l.store.Consistent

/-- Another ledger knows all packages and jigs of a ledger. -/
structure Extends (l l' : Ledger) : Prop where
  registry : l.registry.Extends l'.registry
  store : l.store.Extends l'.store

theorem sound_empty : Sound .empty := ⟨Registry.sound_empty, Store.consistent_empty⟩

theorem Extends.refl (l : Ledger) : l.Extends l := ⟨.refl _, .refl _⟩

theorem Extends.trans (h : l.Extends l') (h' : l'.Extends l'') : l.Extends l'' :=
  ⟨h.registry.trans h'.registry, h.store.trans h'.store⟩

/-! ### Deploying and minting -/

/-- Deploying a package adds it to the registry, as it has been built. -/
theorem deploy_eq_ok {entries : List String} {sources : Sources} {id : PackageId}
    (done : l.deploy p entries sources = .ok (id, l')) : ∃ package registry,
      package.IsMadeBy p.compiler ∧ l.registry.add package = .ok registry ∧
      l' = { l with registry := registry } := by
  simp only [deploy, bind_eq_ok, mapError_eq_ok, pure, Except.pure, Except.ok.injEq,
    Prod.mk.injEq] at done
  obtain ⟨artifacts, compiled, package, built, registry, added, -, rfl⟩ := done
  exact ⟨package, registry, ⟨entries, sources, artifacts, compiled, built⟩, added, rfl⟩

/-- Minting a coin inserts its output. -/
theorem mint_eq_ok {owner : Address} {amount seed : UInt64} {o : Output}
    (done : l.mint p.config owner amount seed = .ok (o, l')) : ∃ store,
      l.store.insert o = .ok store ∧ l' = { l with store := store } := by
  simp only [mint, bind_eq_ok, mapError_eq_ok, pure, Except.pure, Except.ok.injEq,
    Prod.mk.injEq] at done
  obtain ⟨minted, -, store, inserted, rfl, rfl⟩ := done
  exact ⟨store, inserted, rfl⟩

theorem Sound.deploy (h : l.Sound) {entries : List String} {sources : Sources} {id : PackageId}
    (done : l.deploy p entries sources = .ok (id, l')) : l'.Sound ∧ l.Extends l' := by
  obtain ⟨package, registry, made, added, rfl⟩ := deploy_eq_ok done
  exact ⟨⟨h.registry.add made.isBuilt added, h.store⟩, Registry.extends_add added, .refl _⟩

theorem Sound.mint (h : l.Sound) {owner : Address} {amount seed : UInt64} {o : Output}
    (done : l.mint p.config owner amount seed = .ok (o, l')) : l'.Sound ∧ l.Extends l' := by
  obtain ⟨store, inserted, rfl⟩ := mint_eq_ok done
  obtain ⟨consistent, more⟩ := h.store.insert inserted
  exact ⟨⟨h.registry, consistent⟩, .refl _, more⟩

/-! ### Executing -/

/-- A transaction that was executed: the ledger at that moment, and the result. -/
structure Execution where
  ledger : Ledger
  tx : Transaction
  result : ExecutionResult

/-- No two jigs that were touched have the same origin, and no two outputs the same location. -/
structure Execution.Apart (p : Policy) (e : Execution) : Prop where
  origins : ∀ c, Engine.contextOf (e.ledger.env p) e.tx = .ok c →
    ((Engine.runTransaction c e.tx).2.jigs.map (·.origin)).Nodup
  locations : (e.result.outputs.map (·.location)).Nodup

/-- The context of a transaction has what it runs over. -/
theorem env_of_contextOf {env : Engine.Env} {tx : Transaction} {c : Engine.Context}
    (h : Engine.contextOf env tx = .ok c) : c.env = env := (Engine.contextOf_eq_ok h).1

/-- What comes of executing a transaction comes of running it in a session. -/
theorem execute_eq_ok {tx : Transaction} {r : ExecutionResult} :
    (l.execute p tx).1 = .ok r ↔ ∃ c s, Engine.contextOf (l.env p) tx = .ok c ∧
      Engine.runTransaction c tx = (.ok r, s) := Engine.execute_eq_ok

/-- An execution lies in the past of a ledger: it was done over a sound ledger, which has led to
this one. -/
structure Execution.IsPast (e : Execution) (p : Policy) (l : Ledger) : Prop where
  sound : e.ledger.Sound
  leads : e.ledger.Extends l
  done : (e.ledger.execute p e.tx).1 = .ok e.result

theorem Execution.IsPast.trans {e : Execution} (h : e.IsPast p l) (more : l.Extends l') :
    e.IsPast p l' :=
  { h with leads := h.leads.trans more }

/-! ### Committing -/

/-- A commit has found none of the packages registered, all spends current and all outputs in
place. -/
theorem commit_eq_ok {r : ExecutionResult} :
    l.commit r = .ok l' ↔ (∀ p ∈ r.deploys, l.registry.get? p.id = none) ∧
      l.store.apply r.spends r.outputs = .ok l'.store ∧
      registerAll l.registry r.deploys = .ok l'.registry := by
  have missing_iff : (r.deploys.find? fun p => l.registry.contains p.id) = none ↔
      ∀ p ∈ r.deploys, l.registry.get? p.id = none := by
    simp only [List.find?_eq_none, Registry.contains_eq, Option.isSome_iff_ne_none, ne_eq, not_not]
  rw [← missing_iff, commit]
  rcases hf : r.deploys.find? (fun p => l.registry.contains p.id) with _ | known
  · simp only [hf, bind_eq_ok, mapError_eq_ok, pure, Except.pure, Except.ok.injEq, true_and]
    constructor
    · rintro ⟨store, applied, registry, registered, rfl⟩
      exact ⟨applied, registered⟩
    · rintro ⟨applied, registered⟩
      exact ⟨_, applied, _, registered, rfl⟩
  · simp [hf]

section Commit

variable {e : Execution} (past : e.IsPast p l) (apart : e.Apart p)

include past apart

/-- The outputs of an execution that kept its jigs apart have different origins. -/
theorem Execution.IsPast.nodup : (e.result.outputs.map (·.origin)).Nodup := by
  obtain ⟨c, s, context, run⟩ := execute_eq_ok.1 past.done
  obtain ⟨-, ls, settled, outputs, -⟩ := Engine.runTransaction_eq_ok run
  have distinct := apart.origins c context
  rw [run] at distinct
  rw [outputs]
  exact distinct.sublist (Engine.Settled.outputs_sublist settled)

/-- What is written down for a known jig has the class that the jig has had. -/
theorem Execution.IsPast.classPtr_eq (sound : l.Sound) (done : l.commit e.result = .ok l')
    {o last : Output} (ho : o ∈ e.result.outputs) (known : l.store.byOrigin o.origin = some last) :
    o.classPtr = last.classPtr := by
  obtain ⟨c, s, context, run⟩ := execute_eq_ok.1 past.done
  have env := env_of_contextOf context
  have consistent : c.env.store.Consistent := env ▸ past.sound.store
  have registry : c.env.registry.Sound := env ▸ past.sound.registry
  have distinct := apart.origins c context
  rw [run] at distinct
  have spent : o.origin ∈ e.result.spentOrigins := by
    obtain ⟨-, room, -⟩ := sound.store.apply_eq_ok.1 (commit_eq_ok.1 done).2.1
    -- Only a spent jig may be written down when it is known.
    refine (room o ho).2.resolve_left fun unknown => ?_
    rw [unknown] at known
    cases known
  obtain ⟨spend, -, prior, found, same, cls⟩ :=
    Engine.replaced_of_run consistent run registry distinct ho spent
  have latest := (consistent.byLocation found).2
  rw [same, env] at latest
  obtain ⟨now, there, kept⟩ := past.leads.store o.origin prior latest
  rw [known] at there
  cases there
  exact cls.symm.trans kept.symm

/-- Committing the result of a past execution keeps a ledger sound, if it kept its jigs apart. -/
theorem Sound.commit (h : l.Sound) (done : l.commit e.result = .ok l') :
    l'.Sound ∧ l.Extends l' := by
  obtain ⟨-, applied, registered⟩ := commit_eq_ok.1 done
  obtain ⟨c, s, -, run⟩ := execute_eq_ok.1 past.done
  have built : ∀ p ∈ e.result.deploys, p.IsBuilt := by
    rw [(Engine.runTransaction_eq_ok run).1]
    exact (Engine.lawful_of_run run).deploys.built
  have origins := past.nodup apart
  obtain ⟨registry, more⟩ := h.registry.foldlM_add built registered
  exact ⟨⟨registry, (h.store.apply origins apart.locations applied).1⟩, more,
    h.store.extends_apply origins apart.locations applied fun o ho last known =>
      past.classPtr_eq apart h done ho known⟩

end Commit

/-! ### Histories -/

/-- A ledger has come about by mints, deployments and commits, under one policy. The executions so
far are listed, and those whose results have been committed, the latest first. -/
inductive History (p : Policy) : Ledger → List Execution → List Execution → Prop where
  | empty : History p .empty [] []
  | deploy {l l' : Ledger} {executed committed : List Execution} {entries : List String}
      {sources : Sources} {id : PackageId} (before : History p l executed committed)
      (done : l.deploy p entries sources = .ok (id, l')) : History p l' executed committed
  | mint {l l' : Ledger} {executed committed : List Execution} {owner : Address}
      {amount seed : UInt64} {o : Output} (before : History p l executed committed)
      (done : l.mint p.config owner amount seed = .ok (o, l')) : History p l' executed committed
  | execute {l : Ledger} {executed committed : List Execution} {tx : Transaction}
      {r : ExecutionResult} (before : History p l executed committed)
      (done : (l.execute p tx).1 = .ok r) : History p l (⟨l, tx, r⟩ :: executed) committed
  | commit {l l' : Ledger} {executed committed : List Execution} {e : Execution}
      (before : History p l executed committed) (mem : e ∈ executed)
      (done : l.commit e.result = .ok l') : History p l' executed (e :: committed)

/-- Throughout a history in which all that was committed kept its outputs apart, the indices of the
store are right. -/
theorem History.indexed {executed committed : List Execution} (h : History p l executed committed)
    (locations : ∀ e ∈ committed, (e.result.outputs.map (·.location)).Nodup) : l.store.Indexed := by
  induction h with
  | empty => exact Store.indexed_empty
  | deploy _ done ih =>
    obtain ⟨package, registry, -, -, rfl⟩ := deploy_eq_ok done
    exact ih locations
  | mint _ done ih =>
    obtain ⟨store, inserted, rfl⟩ := mint_eq_ok done
    exact (ih locations).insert inserted
  | execute _ _ ih => exact ih locations
  | commit _ _ done ih =>
    exact (ih fun e he => locations e (.tail _ he)).apply (locations _ (.head _))
      (commit_eq_ok.1 done).2.1

/-- Throughout a history in which all that was committed kept its jigs apart, the ledger is sound,
and all executions lie in its past. -/
theorem History.sound {executed committed : List Execution} (h : History p l executed committed)
    (apart : ∀ e ∈ committed, e.Apart p) : l.Sound ∧ ∀ e ∈ executed, e.IsPast p l := by
  induction h with
  | empty => exact ⟨sound_empty, nofun⟩
  | deploy _ done ih =>
    obtain ⟨sound, past⟩ := ih apart
    obtain ⟨sound', more⟩ := sound.deploy done
    exact ⟨sound', fun e he => (past e he).trans more⟩
  | mint _ done ih =>
    obtain ⟨sound, past⟩ := ih apart
    obtain ⟨sound', more⟩ := sound.mint done
    exact ⟨sound', fun e he => (past e he).trans more⟩
  | execute _ done ih =>
    obtain ⟨sound, past⟩ := ih apart
    refine ⟨sound, fun e he => ?_⟩
    rcases List.mem_cons.1 he with rfl | he
    · exact ⟨sound, .refl _, done⟩
    · exact past e he
  | commit _ mem done ih =>
    obtain ⟨sound, past⟩ := ih fun e he => apart e (.tail _ he)
    obtain ⟨sound', more⟩ := Sound.commit (past _ mem) (apart _ (.head _)) sound done
    exact ⟨sound', fun e he => (past e he).trans more⟩

end JigLedger.Ledger
