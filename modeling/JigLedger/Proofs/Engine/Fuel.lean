import JigLedger.Proofs.Engine.Placement

/-!
# What pointers cost

Whenever a stored jig is loaded or a jig is constructed, the code of its package is run, and this
costs fuel. A constructed jig takes a pointer at once and a loaded one in the end. So what is left
of the fuel, the number of the next pointer and the number of loaded jigs do not grow together, and
a transaction takes no more pointers than it has instructions and fuel.
-/

namespace JigLedger.Engine

open Wasm (Val Thread)

variable {α β : Type} {j k : Nat} {c : Context} {s t u : Session}

/-! ### Loaded jigs -/

/-- Where the loaded jigs come from. -/
def Session.loaded (s : Session) : List Pointer := s.jigs.filterMap (·.previous)

theorem Session.loaded_of_jigs (h : t.jigs = s.jigs) : t.loaded = s.loaded := by
  rw [loaded, loaded, h]

theorem Session.loaded_made (s : Session) (jig : TouchedJig) :
    (s.made jig).loaded = s.loaded ++ jig.previous.toList := by
  rcases hp : jig.previous with _ | previous <;> simp [loaded, made, record, hp]

theorem Session.loaded_withLock (s : Session) (idx : Nat) (lock : Lock) :
    (s.withLock idx lock).loaded = s.loaded := by
  have pairs (jigs : List TouchedJig) : jigs.filterMap (·.previous) =
      (jigs.map fun j => (j.origin, j.previous)).filterMap (·.2) := by
    rw [List.filterMap_map]
    rfl
  rw [loaded, loaded, pairs, pairs, withLock, Grown.map_modify_lock]

/-! ### The reach of a session -/

/-- The number that pointers can still come to: each loaded jig takes one in the end, and each jig
that has not been touched yet costs fuel. -/
def Session.reach (s : Session) : Nat := s.fuel + s.nextIndex + s.loaded.length

/-- The reach has become shorter, at least by so much. -/
def Metered (k : Nat) (s t : Session) : Prop := t.reach + k ≤ s.reach

namespace Metered

theorem same (fuel : t.fuel ≤ s.fuel) (nextIndex : t.nextIndex = s.nextIndex)
    (loaded : t.loaded = s.loaded) : Metered 0 s t := by
  rw [Metered, Session.reach, Session.reach, nextIndex, loaded]
  omega

theorem trans (h : Metered j s t) (h' : Metered k t u) : Metered (j + k) s u := by
  unfold Metered at *
  omega

/-- A session that differs in nothing that counts. -/
theorem congr {s' t' : Session} (h : Metered k s t) (before : s'.reach = s.reach)
    (after : t'.reach = t.reach) : Metered k s' t' := by
  rw [Metered, before, after]
  exact h

end Metered

/-- What shortens the reach comes first. -/
theorem Leads.metered_then {m : Engine α} {f : α → Engine β} (hm : Leads (Metered k) m)
    (hf : ∀ a, Leads (Metered 0) (f a)) : Leads (Metered k) (m >>= f) := by
  intro s b u run
  obtain ⟨a, t, first, rest⟩ := runFrom_bind_eq_ok run
  exact (hm s a t first).trans (hf a t b u rest)

/-- What shortens the reach comes later. -/
theorem Leads.then_metered {m : Engine α} {f : α → Engine β} (hm : Leads (Metered 0) m)
    (hf : ∀ a, Leads (Metered k) (f a)) : Leads (Metered k) (m >>= f) := by
  intro s b u run
  obtain ⟨a, t, first, rest⟩ := runFrom_bind_eq_ok run
  have both := (hm s a t first).trans (hf a t b u rest)
  rwa [Nat.zero_add] at both

theorem lenient_metered : Lenient (Metered 0) where
  silent h := .same h.fuel h.nextIndex (Session.loaded_of_jigs h.jigs)
  trans := .trans
  noted _ _ _ := .same (Nat.le_refl _) rfl rfl
  launched _ _ := .same (Nat.le_refl _) rfl rfl
  started _ _ := .same (Nat.le_refl _) rfl rfl

theorem Leads.metered_inFrame {entry : Entry} {frame : Frame} {callee : Abi.Callable}
    {args : List Value} {body : Engine α} (hb : Leads (Metered k) body) :
    Leads (Metered k) (inFrame c entry frame callee args body) := by
  intro s a t run
  obtain ⟨u, ran, rfl⟩ := runFrom_inFrame_eq_ok run
  exact (hb _ _ _ ran).congr rfl rfl

theorem steady_metered (c : Context) : Steady c (Metered 0) where
  toLenient := lenient_metered
  deployed _ _ := .same (Nat.le_refl _) rfl rfl
  relocked s idx lock := .same (Nat.le_refl _) rfl (s.loaded_withLock idx lock)
  spent s idx _ := .same (Nat.le_refl _) rfl (s.loaded_withLock idx .frozen)
  inFrame := Leads.metered_inFrame

/-- What costs a unit of fuel shortens the reach. -/
theorem Costs.metered {m : Engine α} (h : Costs (Metered 0) m) : Leads (Metered 1) m := by
  intro s a t run
  obtain ⟨enough, rest⟩ := h s a t run
  have burnt : ({ s with fuel := s.fuel - 1 } : Session).reach + 1 = s.reach := by
    change s.fuel - 1 + s.nextIndex + s.loaded.length + 1 = s.reach
    rw [Session.reach]
    omega
  unfold Metered at *
  omega

/-! ### Making jigs -/

/-- The origin of a new jig takes a pointer, at most. -/
theorem reach_newOrigin {h : Host} {origin : Pointer}
    (run : runFrom s h.newOrigin = (.ok origin, t)) :
    t.reach ≤ s.reach + 1 := by
  obtain ⟨-, -, rfl⟩ | ⟨-, -, rfl⟩ := runFrom_newOrigin_eq_ok run
  · exact Nat.le_succ _
  · change s.fuel + (s.nextIndex + 1) + s.loaded.length ≤ s.reach + 1
    rw [Session.reach]
    omega

section Guests

variable {h : Host}
  (invoke : ∀ guest errand thread, Leads (Metered 1) (h.invoke guest errand thread))

include invoke

/-- Running a guest does not lengthen the reach. -/
theorem Leads.metered_invoke (guest : Nat) (errand : Errand) (thread : Thread) :
    Leads (Metered 0) (h.invoke guest errand thread) := fun s results t run => by
  have shorter := invoke guest errand thread s results t run
  unfold Metered at *
  omega

theorem Leads.metered_invokeAt (home : Nat) (errand : Errand) (thread : PackageInstance → Thread) :
    Leads (Metered 1) (h.invokeAt home errand thread) :=
  (reads lenient_metered (.instanceAt home)).then_metered fun _ => invoke _ _ _

/-- Bringing a stored jig into memory runs the allocator of its package. -/
theorem Leads.metered_rehydrate (o : Output) : Leads (Metered 1) (h.rehydrate o) := by
  have lenient := lenient_metered
  have reads {α : Type} {m : Engine α} (hm : ReadsOnly m) : Leads (Metered 0) m := .reads lenient hm
  have heap home := Leads.heap lenient (metered_invoke invoke) home (.object home)
  have alloc (home : Nat) (size : UInt32) :
      Leads (Metered 1) (h.alloc home (.object home) size) := by
    refine (metered_invokeAt invoke home _ _).metered_then fun results =>
      (reads (.resultWord results)).bind lenient fun word => ?_
    dsimp only
    split
    · exact reads (.failPlain _)
    · exact (reads (.look _ _)).bind lenient fun _ => reads (.pure _)
  have build home cls values : Leads (Metered 1) (h.buildObject home cls o.origin values) :=
    (alloc home _).metered_then fun address => ((heap home).writeOrigin _ _).bind lenient fun _ =>
      ((heap home).writeRecord _ _ _).bind lenient fun _ => reads (.pure _)
  exact (reads (.orError _ _)).then_metered fun lock =>
    (reads (.packageOf _ _)).then_metered fun _ =>
      (instanceFor lenient (metered_invoke invoke) _).then_metered fun home =>
        (reads (.instanceAt home)).then_metered fun inst =>
          (reads (.orError _ _)).then_metered fun cls =>
            (reads (.orError _ _)).then_metered fun values =>
              (build home cls values).metered_then fun _ => reads (.pure _)

theorem Leads.metered_lowerArgs (home : Nat) : ∀ (fields : List Field) (values : List Value),
    Leads (Metered 0) (h.lowerArgs home fields values)
  | [], _ => .reads lenient_metered (.pure _)
  | _ :: _, [] => .reads lenient_metered (.pure _)
  | f :: fields, v :: values =>
    ((Leads.heap lenient_metered (metered_invoke invoke) home .arguments).lower f.ty v).bind
      lenient_metered fun _ => (metered_lowerArgs home fields values).bind lenient_metered
        fun _ => .reads lenient_metered (.pure _)

/-- Constructors are run. -/
theorem Leads.metered_callConstructor (home : Nat) (cls : Abi.Class) (args : List Value) :
    Leads (Metered 1) (h.callConstructor home cls args) := by
  have lenient := lenient_metered
  refine (metered_lowerArgs invoke home _ args).then_metered fun params =>
    (reads lenient (.instanceAt home)).then_metered fun inst => ?_
  dsimp only
  cases inst.package.module.exportedFunc? cls.constructor.exportName with
  | none =>
    intro s _ t run
    cases run
  | some idx =>
    refine (reads lenient (.checkCall _ _ _ _)).then_metered fun _ =>
      (metered_invokeAt invoke home _ _).metered_then fun results => ?_
    cases results
    · exact reads lenient (.pure _)
    · exact (reads lenient (.wordOf _)).bind lenient fun _ => reads lenient (.pure _)

/-- Constructing a jig takes a pointer, at most, and its constructor runs. -/
theorem Leads.metered_construct (home classIdx : Nat) (args : List Value) :
    Leads (Metered 0) (h.construct home classIdx args) := by
  intro s idx t run
  obtain ⟨inst, _, looked, classing⟩ := runFrom_bind_eq_ok run
  obtain ⟨-, rfl⟩ := runFrom_instanceAt_eq_ok.1 looked
  obtain ⟨cls, _, classed, placing⟩ := runFrom_bind_eq_ok classing
  obtain ⟨-, rfl⟩ := runFrom_orPlain_eq_ok.1 classed
  obtain ⟨origin, v, placed, touching⟩ := runFrom_bind_eq_ok placing
  obtain ⟨i, -, twice⟩ | ⟨-, jig, u, made, -, rfl⟩ := runFrom_touch_eq_ok touching
  · cases twice
  obtain ⟨word, w, called, making⟩ := runFrom_bind_eq_ok made
  obtain ⟨-, previous, -⟩ := runFrom_newJig_eq_ok making
  have body : Metered (1 + 0) (v.record (.making origin)) u :=
    (metered_inFrame (metered_callConstructor invoke home cls args) _ _ _ called).trans
      (newJig lenient_metered (metered_invoke invoke) home classIdx cls origin word _ _ _ making)
  have taken := reach_newOrigin placed
  have new : (u.made jig).reach = u.reach := by
    rw [Session.reach, Session.loaded_made, previous, Option.toList_none, List.append_nil]
    rfl
  have before : (v.record (.making origin)).reach = v.reach := rfl
  unfold Metered at *
  omega

end Guests

/-- Whatever is built does not lengthen the reach, when running guests costs fuel. -/
theorem Built.metered {inv : Invoker} {top : Option Nat} {m : Context → Engine α}
    (h : Built inv top m)
    (invoke : ∀ guest errand thread, Leads (Metered 1) (inv c guest errand thread)) :
    Leads (Metered 0) (m c) := by
  refine h.leads (steady_metered c) (Leads.metered_invoke (h := inv.host c) invoke)
    (fun s o jig t run => ?_) fun home classIdx args _ _ =>
      .metered_construct (h := inv.host c) invoke home classIdx args
  have shorter := Leads.metered_rehydrate (h := inv.host c) invoke o s jig t run
  have stored : (t.made jig).reach = t.reach + 1 := by
    rw [Session.reach, Session.loaded_made, (runFrom_rehydrate_eq_ok run).2.2]
    simp only [Option.toList_some, List.length_append, List.length_singleton]
    rfl
  unfold Metered at *
  omega

/-! ### Transactions -/

/-- Running a guest costs fuel, and it does not lengthen the reach. -/
theorem Costs.metered_run (c : Context) (room guest : Nat) (thread : Thread) :
    Costs (Metered 0) (Engine.run c room guest thread) := by
  refine .run lenient_metered (fun room again function args => ?_) room guest thread
  let inv : Invoker := fun c => Engine.onErrand (Engine.run c room)
  have built : Built inv none fun c => (inv.host c).answer function args := .answer function args
  exact built.metered fun guest errand thread => (again guest errand thread).metered

/-- An instruction does not lengthen the reach. -/
theorem Leads.metered_instruction (c : Context) (i : Instruction) :
    Leads (Metered 0) ((host c).instruction i) := by
  have built : Built invoker none fun c => (invoker.host c).instruction i := .instruction i
  exact built.metered fun guest errand thread =>
    (Costs.onErrand lenient_metered (Costs.metered_run c _) guest errand thread).metered

/-- Instructions that run one after the other do not lengthen the reach. -/
theorem Leads.metered_steps (c : Context) : ∀ (instructions : List Instruction) (idx : Nat),
    Leads (Metered 0) (steps (host c) idx instructions)
  | [], _ => .reads lenient_metered (.pure _)
  | i :: rest, idx => by
    intro s fuels t run
    obtain ⟨fuel, u, second, here, others⟩ := runFrom_steps_cons_eq_ok run
    obtain ⟨statement, v, performed, rfl⟩ := runFrom_step_eq_ok here
    have first : Metered 0 s { v with statements := v.statements ++ [statement] } :=
      (metered_instruction c i _ _ _ performed).congr rfl rfl
    exact first.trans (metered_steps c rest (idx + 1) _ _ _ others)

/-- Writing jigs down takes a pointer for each loaded one, at most. -/
theorem runFrom_mapM_settle_nextIndex : ∀ {jigs : List TouchedJig} {s : Session}
    {ls : List Leaving}, runFrom s (jigs.mapM (settle c)) = (.ok ls, t) →
      t.nextIndex ≤ s.nextIndex + (jigs.filterMap (·.previous)).length
  | [], s, ls, run => by
    simp only [List.mapM_nil] at run
    cases run
    exact Nat.le_refl _
  | jig :: jigs, s, _, run => by
    simp only [List.mapM_cons] at run
    obtain ⟨l, v, settled, rest⟩ := runFrom_bind_eq_ok run
    obtain ⟨ls, _, others, returned⟩ := runFrom_bind_eq_ok rest
    cases returned
    have later := runFrom_mapM_settle_nextIndex others
    have all : (jigs.filterMap (·.previous)).length ≤
        ((jig :: jigs).filterMap (·.previous)).length :=
      ((List.sublist_cons_self jig jigs).filterMap _).length_le
    rcases runFrom_settle_places settled with ⟨-, same⟩ | ⟨o, -, ⟨-, same⟩ | ⟨old, -, next⟩⟩
    · omega
    · omega
    · rcases hp : jig.previous with _ | previous
      · rw [TouchedJig.fresh?, if_pos hp] at old
        cases old
      · simp only [List.filterMap_cons, hp, List.length_cons]
        omega

/-- A transaction takes no more pointers than it has instructions and fuel. -/
theorem nextIndex_of_run {tx : Transaction} {r : ExecutionResult}
    (run : runTransaction c tx = (.ok r, u)) :
    u.nextIndex ≤ tx.size + c.env.config.fuelLimit := by
  obtain ⟨fuels, v, ls, ran, settled, -⟩ := settled_of_run run
  have metered := Leads.metered_steps c tx.instructions 0 _ _ _ ran
  have start : (Session.start c.env.config.fuelLimit tx.size).reach =
      c.env.config.fuelLimit + tx.size := rfl
  have final : u.nextIndex ≤ v.nextIndex + v.loaded.length := runFrom_mapM_settle_nextIndex settled
  have reach : v.reach = v.fuel + v.nextIndex + v.loaded.length := rfl
  unfold Metered at metered
  omega

end JigLedger.Engine
