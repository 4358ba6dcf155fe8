import JigLedger.Ledger.InPlace
import JigLedger.Proofs.Ledger.Freshness

/-!
# Commits happen as a whole or not at all

A commit writes two stores in several steps. All that can be refused is looked at before the first
step that writes, except for the packages: they are registered last. The packages of a result have
different ids, and none of them is registered when the last steps begin, so no step fails after one
that writes. Therefore a commit that is made in place does what `Ledger.commit` says, and a replay
in place stops at the first transaction that fails, with what the ones before it have left.
-/

namespace JigLedger

variable {α β : Type} {p : Policy} {l l' : Ledger} {r : ExecutionResult} {tx : Transaction}

/-! ### Checking one after the other -/

/-- The first of the checks that fails is the one that is reported. -/
theorem forM_mapError {ε ε' : Type} {f : α → Except ε Unit} {g : ε → ε'} (items : List α) :
    items.forM (fun a => (f a).mapError g) = (items.forM f).mapError g := by
  induction items with
  | nil => rfl
  | cons a rest ih =>
    simp only [List.forM_eq_forM, List.forM_cons] at ih ⊢
    cases f a with
    | error e => rfl
    | ok u => exact ih

/-- Looking for the first item that is out of place is checking one after the other. -/
theorem forM_eq_find? {ε : Type} (bad : α → Bool) (e : α → ε) (items : List α) :
    items.forM (fun a => if bad a then Except.error (e a) else .ok ()) =
      (items.find? bad).elim (.ok ()) fun a => .error (e a) := by
  induction items with
  | nil => rfl
  | cons a rest ih =>
    rw [List.forM_eq_forM] at ih
    rw [List.forM_eq_forM, List.forM_cons, List.find?_cons]
    by_cases h : bad a = true
    · simp [h, bind, Except.bind]
    · simp only [h, Bool.false_eq_true, if_false]
      exact ih

namespace Ledger

/-! ### Work in place -/

namespace InPlace

theorem bind_of_ok {m : Work α} {f : α → Work β} {a : α} (h : m l = (.ok a, l')) :
    (m >>= f) l = f a l' := by
  simp only [bind, ExceptT.bind, ExceptT.mk, StateT.bind]
  rw [h]
  rfl

theorem bind_of_error {m : Work α} {f : α → Work β} {e : Failure} (h : m l = (.error e, l')) :
    (m >>= f) l = (.error e, l') := by
  simp only [bind, ExceptT.bind, ExceptT.mk, StateT.bind]
  rw [h]
  rfl

theorem during_eq {context : String} {work : Work α} {result : Except Failure α}
    (h : work l = (result, l')) : during context work l = (within context result, l') := by
  rw [during, h]

/-- Looks do not change what the next one sees. -/
theorem forM_look {items : List α} {f : α → Ledger → Except Failure Unit} :
    items.forM (fun a => look (f a)) l = (items.forM fun a => f a l, l) := by
  induction items with
  | nil => rfl
  | cons a rest ih =>
    rw [List.forM_eq_forM] at ih
    rw [List.forM_eq_forM, List.forM_eq_forM, List.forM_cons, List.forM_cons]
    cases h : f a l with
    | error e => exact bind_of_error (by rw [look, h])
    | ok u =>
      rw [@bind_of_ok _ _ l l _ _ u (by rw [look, h])]
      exact ih

/-- Changes are made one after the other. -/
theorem forM_change {items : List α} {f : α → Ledger → Ledger} :
    items.forM (fun a => change (f a)) l = (.ok (), items.foldl (fun l a => f a l) l) := by
  induction items generalizing l with
  | nil => rfl
  | cons a rest ih =>
    rw [List.forM_eq_forM] at ih ⊢
    rw [List.forM_cons]
    exact ih

theorem foldl_store {items : List α} {f : Store → α → Store} :
    items.foldl (fun l a => { l with store := f l.store a }) l =
      { l with store := items.foldl f l.store } := by
  induction items generalizing l with
  | nil => rfl
  | cons a rest ih => exact ih

/-- What work comes to that does all of a change of the ledger or nothing. -/
def allOrNothing (l : Ledger) : Except Failure Ledger → Except Failure Unit × Ledger
  | .ok l' => (.ok (), l')
  | .error f => (.error f, l)

/-- The spends and outputs of a change are written after all of them have been checked. -/
theorem apply_eq (spends : List Spend) (outputs : List Output) : apply spends outputs l =
    allOrNothing l (((l.store.apply spends outputs).mapError fun e => .plain e.message).map
      fun store => { l with store := store }) := by
  have spendable : (spends.forM checkSpend : Work PUnit) l =
      ((spends.forM l.store.checkSpend).mapError fun e => .plain e.message, l) := by
    rw [← forM_mapError]
    exact forM_look
  have room : (outputs.forM (checkOutput spends) : Work PUnit) l =
      ((outputs.forM (l.store.checkOutput spends)).mapError fun e => .plain e.message, l) := by
    rw [← forM_mapError]
    exact forM_look
  have spent (l : Ledger) : (spends.forM (spend outputs) : Work PUnit) l =
      (.ok (), { l with store := spends.foldl (Store.remove outputs) l.store }) := by
    rw [← foldl_store]
    exact forM_change
  have added (l : Ledger) : (outputs.forM put : Work PUnit) l =
      (.ok (), { l with store := outputs.foldl Store.add l.store }) := by
    rw [← foldl_store]
    exact forM_change
  rw [apply, Store.apply]
  cases hs : spends.forM l.store.checkSpend with
  | error e =>
    rw [hs] at spendable
    exact bind_of_error spendable
  | ok u =>
    rw [hs] at spendable
    rw [bind_of_ok spendable]
    cases ho : outputs.forM (l.store.checkOutput spends) with
    | error e =>
      rw [ho] at room
      exact bind_of_error room
    | ok v =>
      rw [ho] at room
      rw [bind_of_ok room, bind_of_ok (spent l), added]
      rfl

/-- Packages that can be registered one after the other are registered in place. -/
theorem forM_register {packages : List Package} {registry : Registry}
    (registered : registerAll l.registry packages = .ok registry) :
    (packages.forM register : Work PUnit) l = (.ok (), { l with registry := registry }) := by
  induction packages generalizing l with
  | nil =>
    cases registered
    rfl
  | cons q rest ih =>
    rw [registerAll, List.foldlM_cons] at registered
    obtain ⟨next, added, others⟩ := bind_eq_ok.1 registered
    have here : register q l = (.ok (), { l with registry := next }) := by
      rw [register, @bind_of_ok _ _ l l _ _ next (by rw [look, added]; rfl)]
      rfl
    rw [List.forM_eq_forM] at ih ⊢
    rw [List.forM_cons, bind_of_ok here]
    exact @ih { l with registry := next } others

/-- A commit in place does what a commit does, if packages that are not registered yet can be
registered together. -/
theorem commit_eq (deployable : (∀ q ∈ r.deploys, l.registry.get? q.id = none) →
    ∃ registry, registerAll l.registry r.deploys = .ok registry) :
    commit r l = allOrNothing l (l.commit r) := by
  have checked : (r.deploys.forM checkPackage : Work PUnit) l =
      ((r.deploys.find? fun q => l.registry.contains q.id).elim (.ok ())
        fun q => .error (.plain (AlreadyRegistered.mk q.id).message), l) :=
    forM_look.trans (congrArg (·, l) (forM_eq_find? (fun q => l.registry.contains q.id)
      (fun q => Failure.plain (AlreadyRegistered.mk q.id).message) r.deploys))
  rw [commit, Ledger.commit]
  cases hf : r.deploys.find? fun q => l.registry.contains q.id with
  | some q =>
    rw [hf] at checked
    exact bind_of_error checked
  | none =>
    rw [hf] at checked
    rw [bind_of_ok checked]
    have unregistered : ∀ q ∈ r.deploys, l.registry.get? q.id = none := by
      intro q mem
      have missing := List.find?_eq_none.1 hf q mem
      rwa [Registry.contains_eq, Option.not_isSome_iff_eq_none] at missing
    obtain ⟨registry, registered⟩ := deployable unregistered
    have applied := @apply_eq l r.spends r.outputs
    cases hs : l.store.apply r.spends r.outputs with
    | error e =>
      rw [hs] at applied
      exact bind_of_error applied
    | ok store =>
      have applied : apply r.spends r.outputs l = (.ok (), { l with store := store }) := by
        rw [applied, hs]
        rfl
      have listed : registerAll ({ l with store := store } : Ledger).registry r.deploys =
        .ok registry := registered
      rw [bind_of_ok applied, forM_register listed, registered]
      rfl

end InPlace

/-! ### What has been applied -/

/-- Packages that have been registered are found under their ids. -/
theorem get?_registerAll {packages : List Package} {registry after : Registry}
    (nodup : (packages.map (·.id)).Nodup) (done : registerAll registry packages = .ok after)
    (id : PackageId) :
    after.get? id = (packages.find? (·.id = id)).or (registry.get? id) := by
  induction packages generalizing registry with
  | nil =>
    cases done
    rfl
  | cons q rest ih =>
    rw [registerAll, List.foldlM_cons] at done
    obtain ⟨next, added, others⟩ := bind_eq_ok.1 done
    obtain ⟨new, nodup⟩ := List.nodup_cons.1 nodup
    rw [ih nodup others, Registry.get?_add added, List.find?_cons]
    by_cases same : q.id = id
    · have missing : rest.find? (·.id = id) = none := by
        rw [List.find?_eq_none]
        intro other mem equal
        exact new (List.mem_map.2 ⟨other, mem, (of_decide_eq_true equal).trans same.symm⟩)
      simp [same, missing]
    · simp [same]

/-- All of a result has been applied to a ledger, and nothing else has changed. Of several outputs
for one place or one jig the last one counts. -/
structure Committed (l : Ledger) (r : ExecutionResult) (l' : Ledger) : Prop where
  /-- At each place is the output that was put there, or what was there before, unless it has been
  spent. -/
  live : ∀ location : Pointer, l'.store.live[location]? =
    (r.outputs.reverse.find? (·.location = location)).or
      (if location ∈ r.spends.map (·.location) then none else l.store.live[location]?)
  /-- Outputs at different places are all found there. -/
  found : (r.outputs.map (·.location)).Nodup →
    ∀ o ∈ r.outputs, l'.store.byLocation o.location = some o
  /-- The place of each jig is that of its output, or the one it had before, unless it has been
  spent. -/
  current : ∀ origin : Pointer, l'.store.current[origin]? =
    ((r.outputs.reverse.find? (·.origin = origin)).map (·.location)).or
      (if origin ∈ r.spends.map (·.origin) then none else l.store.current[origin]?)
  /-- A jig that has been spent and has no output leaves a tombstone, where the indices of the store
  have been right. -/
  destroyed : l.store.Indexed → ∀ origin : Pointer, l'.store.destroyed[origin]? =
    if origin ∈ r.spends.map (·.origin) ∧ ¬ r.outputs.any (·.origin = origin) then
      (l.store.byOrigin origin).map (Store.tombstone · origin)
    else l.store.destroyed[origin]?
  /-- Each package that was deployed is registered beside those that were. -/
  packages : ∀ id : PackageId, l'.registry.get? id =
    (r.deploys.find? (·.id = id)).or (l.registry.get? id)

/-- Whatever an execution has returned, a commit applies all of it. -/
theorem committed_of_commit (nodup : (r.deploys.map (·.id)).Nodup) (done : l.commit r = .ok l') :
    Committed l r l' := by
  obtain ⟨-, applied, registered⟩ := commit_eq_ok.1 done
  obtain ⟨due, -, written⟩ := Store.apply_eq_ok.1 applied
  have live (location : Pointer) : l'.store.live[location]? =
      (r.outputs.reverse.find? (·.location = location)).or
        (if location ∈ r.spends.map (·.location) then none else l.store.live[location]?) := by
    rw [written, Store.live_foldl_add, Store.live_foldl_remove]
  refine ⟨live, fun places o ho => ?_, fun origin => ?_, fun indexed origin => ?_,
    get?_registerAll nodup registered⟩
  · rw [Store.byLocation, live, (Store.find?_reverse_eq_some_iff places).2 ⟨ho, rfl⟩]
    rfl
  · rw [written, Store.current_foldl_add, Store.current_foldl_remove]
  · rw [written, Store.destroyed_foldl_add, indexed.destroyed_foldl_remove due]

/-! ### Replays -/

/-- The transactions are executed and committed one after the other, in place, with these
results. -/
def Runs (p : Policy) : Ledger → List Transaction → List ExecutionResult → Ledger → Prop
  | l, [], [], l' => l' = l
  | l, tx :: txs, r :: results, l' => ∃ next, InPlace.runTransaction p tx l = (.ok r, next) ∧
    Runs p next txs results l'
  | _, _, _, _ => False

/-- The packages of a result have different ids. -/
theorem nodup_deploys_of_execute (done : (l.execute p tx).1 = .ok r) :
    (r.deploys.map (·.id)).Nodup := by
  obtain ⟨c, s, -, run⟩ := execute_eq_ok.1 done
  rw [(Engine.runTransaction_eq_ok run).1]
  exact (Engine.lawful_of_run run).deploys.nodup

/-- What an execution has returned, over whatever ledger, is committed in place as it is committed
at once. -/
theorem InPlace.commit_of_execute {l₀ : Ledger} (done : (l₀.execute p tx).1 = .ok r) :
    InPlace.commit r l = InPlace.allOrNothing l (l.commit r) :=
  InPlace.commit_eq fun unregistered =>
    Registry.exists_foldlM_add unregistered (nodup_deploys_of_execute done)

/-- Running a transaction in place does all that running it at once does, or nothing. -/
theorem InPlace.runTransaction_eq : InPlace.runTransaction p tx l =
    match (l.runTransaction p tx).1 with
    | .ok (r, l') => (.ok r, l')
    | .error f => (.error f, l) := by
  have looked : InPlace.look (fun l => (l.execute p tx).1.mapError .ofError) l =
      ((l.execute p tx).1.mapError Failure.ofError, l) := rfl
  have atOnce : (l.runTransaction p tx).1 = (do
      let r ← (l.execute p tx).1.mapError .ofError
      let after ← within "commit execution result" (l.commit r)
      return (r, after)) := rfl
  rw [InPlace.runTransaction, atOnce]
  cases executed : (l.execute p tx).1 with
  | error e =>
    rw [executed] at looked
    exact InPlace.bind_of_error looked
  | ok r =>
    have committed := @InPlace.commit_of_execute _ l _ _ _ executed
    rw [executed] at looked
    rw [InPlace.bind_of_ok looked]
    cases done : l.commit r with
    | error f =>
      rw [done] at committed
      rw [InPlace.bind_of_error (InPlace.during_eq committed)]
      simp only [Except.mapError, bind, Except.bind, done, within]
    | ok l' =>
      rw [done] at committed
      rw [InPlace.bind_of_ok (InPlace.during_eq committed)]
      simp only [Except.mapError, bind, Except.bind, done, within, pure, Except.pure]
      rfl

/-- A replay in place goes through, or it stops at the first transaction that fails. -/
theorem InPlace.replayFrom_cases (txs : List Transaction) (idx : Nat) (l : Ledger) :
    (∃ results l', Runs p l txs results l' ∧ InPlace.replayFrom p idx txs l = (.ok results, l')) ∨
    ∃ (i : Nat) (hi : i < txs.length) (results : List ExecutionResult) (l' : Ledger) (f : Failure),
      Runs p l (txs.take i) results l' ∧ InPlace.runTransaction p txs[i] l' = (.error f, l') ∧
      InPlace.replayFrom p idx txs l =
        (.error (f.within s!"transaction {idx + i} failed"), l') := by
  induction txs generalizing idx l with
  | nil => exact .inl ⟨[], l, rfl, rfl⟩
  | cons tx rest ih =>
    have ran := @InPlace.runTransaction_eq p l tx
    rw [InPlace.replayFrom]
    cases here : (l.runTransaction p tx).1 with
    | error f =>
      rw [here] at ran
      refine .inr ⟨0, Nat.zero_lt_succ _, [], l, f, rfl, ran, ?_⟩
      exact InPlace.bind_of_error (InPlace.during_eq ran)
    | ok out =>
      obtain ⟨r, next⟩ := out
      rw [here] at ran
      rw [InPlace.bind_of_ok (InPlace.during_eq ran)]
      -- The number of the transaction that fails is counted from the first one of the replay.
      rcases ih (idx + 1) next with ⟨results, l', runs, more⟩ |
        ⟨i, hi, results, l', f, runs, failed, more⟩
      · refine .inl ⟨r :: results, l', ⟨next, ran, runs⟩, ?_⟩
        rw [InPlace.bind_of_ok more]
        rfl
      · refine .inr ⟨i + 1, Nat.succ_lt_succ hi, r :: results, l', f, ⟨next, ran, runs⟩, failed, ?_⟩
        rw [InPlace.bind_of_error more, Nat.add_assoc, Nat.add_comm 1 i]

/-- A replay in place is the replay that is made at once. -/
theorem InPlace.replayFrom_eq (txs : List Transaction) (idx : Nat) (l : Ledger) :
    InPlace.replayFrom p idx txs l =
      ((Ledger.replayFrom p idx l txs).results, (Ledger.replayFrom p idx l txs).ledger) := by
  induction txs generalizing idx l with
  | nil => rfl
  | cons tx rest ih =>
    have ran := @InPlace.runTransaction_eq p l tx
    rw [InPlace.replayFrom, Ledger.replayFrom]
    rcases here : l.runTransaction p tx with ⟨f | ⟨r, next⟩, printed⟩
    · rw [here] at ran
      exact InPlace.bind_of_error (InPlace.during_eq ran)
    · rw [here] at ran
      have others := ih (idx + 1) next
      rw [InPlace.bind_of_ok (InPlace.during_eq ran)]
      dsimp only
      cases more : (Ledger.replayFrom p (idx + 1) next rest).results with
      | error f =>
        rw [more] at others
        exact InPlace.bind_of_error others
      | ok results =>
        rw [more] at others
        exact InPlace.bind_of_ok others

/-- Commits and replays happen as a whole or not at all. A commit in place of whatever an execution
has returned, over this or another ledger, fails and leaves everything as it was, or it applies all
of the result; and it is the commit that is made at once. So a replay in place of any transactions
commits all of them, or it stops at the first one that fails, and leaves the ledger as running the
ones before it has left it; and it is the replay that is made at once. -/
theorem commit_atomic (p : Policy) :
    (∀ (l₀ l : Ledger) (tx : Transaction) (r : ExecutionResult), (l₀.execute p tx).1 = .ok r →
      (∃ f, l.commit r = .error f ∧ InPlace.commit r l = (.error f, l)) ∨
      ∃ l', l.commit r = .ok l' ∧ InPlace.commit r l = (.ok (), l') ∧ Committed l r l') ∧
    ∀ (l : Ledger) (txs : List Transaction),
      InPlace.replay p txs l = ((l.replay p txs).results, (l.replay p txs).ledger) ∧
      ((∃ results l', Runs p l txs results l' ∧ InPlace.replay p txs l = (.ok results, l')) ∨
      ∃ (i : Nat) (hi : i < txs.length) (results : List ExecutionResult) (l' : Ledger)
        (f : Failure), Runs p l (txs.take i) results l' ∧
        InPlace.runTransaction p txs[i] l' = (.error f, l') ∧
        InPlace.replay p txs l = (.error (f.within s!"transaction {i} failed"), l')) := by
  refine ⟨fun l₀ l tx r executed => ?_, fun l txs => ⟨InPlace.replayFrom_eq txs 0 l, ?_⟩⟩
  · have inPlace := @InPlace.commit_of_execute _ l _ _ l₀ executed
    cases done : l.commit r with
    | error f =>
      rw [done] at inPlace
      exact .inl ⟨f, rfl, inPlace⟩
    | ok l' =>
      rw [done] at inPlace
      exact .inr ⟨l', rfl, inPlace, committed_of_commit (nodup_deploys_of_execute executed) done⟩
  · rcases InPlace.replayFrom_cases txs 0 l with through |
      ⟨i, hi, results, l', f, runs, failed, stopped⟩
    · exact .inl through
    · rw [Nat.zero_add] at stopped
      exact .inr ⟨i, hi, results, l', f, runs, failed, stopped⟩

/-- A result that was committed can be committed no more. -/
def Deed.isUsedUp (l : Ledger) : Deed → Bool
  | committed e => (e.ledger.commit e.result).isOk && !(l.commit e.result).isOk
  | deployed _ | minted _ _ _ _ | executed _ => false

/-- The result of loading a coin is committed as a whole, and when it is committed once more, not
at all. -/
theorem commit_atomic_of_coin :
    ∃ (p : Policy) (l₀ l : Ledger) (tx : Transaction) (r : ExecutionResult),
      (l₀.execute p tx).1 = .ok r ∧
      (∃ l', l₀.commit r = .ok l' ∧ InPlace.commit r l₀ = (.ok (), l') ∧ Committed l₀ r l') ∧
      ∃ f, l.commit r = .error f ∧ InPlace.commit r l = (.error f, l) := by
  obtain ⟨l, log, chronicle, -, told⟩ := Till.exists_chronicle
    (fun coin => [⟨[.loadByOrigin coin]⟩]) (fun l log => log.any (Deed.isUsedUp l))
    (by decide +kernel)
  obtain ⟨deed, mem, usedUp⟩ := List.any_eq_true.1 told
  cases deed with
  | committed e =>
    have executed := (chronicle.executed (chronicle.executed_of_committed mem)).1
    obtain ⟨first, again⟩ := Bool.and_eq_true_iff.1 usedUp
    refine ⟨_, e.ledger, l, e.tx, e.result, executed, ?_, ?_⟩
    · rcases (commit_atomic _).1 _ e.ledger e.tx e.result executed with ⟨f, failed, -⟩ | all
      · rw [failed] at first
        cases first
      · exact all
    · rcases (commit_atomic _).1 _ l e.tx e.result executed with nothing | ⟨l', done, -⟩
      · exact nothing
      · rw [done] at again
        cases again
  | deployed | minted | executed => cases usedUp

end Ledger

end JigLedger
