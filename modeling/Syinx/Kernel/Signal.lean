import Syinx.Kernel.Machine
import Syinx.Tcp.Account

/-!
# Close by a signal

`SIG_HANDLE` calls `SyinxKernel::Close` from wherever the main thread happens to be: half-way
through a callback or a frame, between `evbuffer_remove` and a `bufferevent_write` of
`OnStatusDoAction` too, or inside another `Close`. It then takes the containers as
they are. A channel that has just been taken out of one of them, or has not been put into
one yet, is not deleted; what matters is that none of those that are in the containers has
an `m_buffer` that has been freed.

## What is proved

* `Turning.of_turn` — what is known at every point of a turn.
* `triple_closeBody` — what `Close` does from such a point frees nothing twice.
* `signalSafe_of_exec` — nothing is released twice in any run, what a `Close` has interrupted
  does not go on, and nothing is released after `exit` has been called.
-/

namespace Syinx.Kernel

open Syinx.Library Syinx.Tcp

variable {α : Type} [Inhabited α] {P : ParseFunc α} {N : ℕ} {k t : SyinxKernel α}

/-- Nothing has been released twice. -/
structure SyinxKernel.ReleasedOnce (k : SyinxKernel α) : Prop where
  /-- `delete` of a channel. -/
  deleted : ∀ c, k.srv.deleted c ≤ 1
  /-- `bufferevent_free` of a client. -/
  freed : ∀ b, (k.srv.bev b).freed ≤ 1
  /-- `evbuffer_free` of the `m_Inputevbuffer` of a channel. -/
  evFreed : ∀ c, k.srv.evFreed c ≤ 1
  /-- `delete` of the `SyinxAdapterResource`. -/
  resourceDeleted : k.resourceDeleted ≤ 1

omit [Inhabited α] in
theorem SyinxKernel.ReleasedOnce.of_account (ha : k.srv.account.Single)
    (hr : k.resourceDeleted ≤ 1) : k.ReleasedOnce :=
  ⟨ha.deleted, ha.freed, ha.evFreed, hr⟩

/-! ### A turn -/

/-- What is known of the channels in a turn of which `ops` are left: there is nothing that
`Close` would free twice, now or at a later point of the turn. What is left of a loop of
`OnStatusDoAction` does not matter to it. -/
def Turning (N : ℕ) (k : SyinxKernel α) (ops : List (KOp α)) : Prop :=
  ∃ (loop : List (KOp α)) (sops : List (Op α)), ops = loop ++ sops.map .srv ∧
    (∀ b ∈ loop, b.ofLoop = true) ∧ Along bookStep Account.Owed k.srv.account sops ∧
      ∀ s, exec (Op.run recvValuesFromString) k.srv sops = some s → PoolInv N s

omit [Inhabited α] in
/-- The account is an account of the core. -/
theorem account_congr {s u : Server α} (h : s.core = u.core) : s.account = u.account := by
  show s.core.account = u.core.account
  rw [h]

namespace Turning

theorem congr {ops : List (KOp α)} (h : Turning N k ops) (hs : t.srv = k.srv) :
    Turning N t ops := by
  unfold Turning
  rw [hs]
  exact h

theorem owed {ops : List (KOp α)} (h : Turning N k ops) : k.srv.account.Owed := by
  obtain ⟨_, sops, -, -, halong, -⟩ := h
  exact halong.first

/-- A turn begins between two turns of the event loop. -/
theorem of_turn (h : Turning N k []) {e : Event α} {s : Server α} {sops : List (Op α)}
    (hst : k.srv.turn e = some (s, sops)) (ht : t.srv = s) : Turning N t (sops.map .srv) := by
  have howed := h.owed
  obtain ⟨loop, ops, hops, -, -, hpool⟩ := h
  rw [eq_comm, List.append_eq_nil_iff, List.map_eq_nil_iff] at hops
  obtain ⟨rfl, rfl⟩ := hops
  subst ht
  have hp : PoolInv N k.srv := hpool _ rfl
  refine ⟨[], sops, rfl, List.forall_mem_nil _, howed.along_turn hp hst, fun u hu => ?_⟩
  refine hp.step (P := recvValuesFromString) (e := e) ?_
  rw [Server.step, hst]
  exact hu

theorem turns (h : Turning N k []) (hbase : k.base = true) {e : KEvent α} {ops : List (KOp α)}
    (hst : Turns k e t ops) : Turning N t ops := by
  cases hst with
  | server hs => exact h.of_turn hs rfl
  | connect o => exact h.congr (by rw [k.connect_eq hbase])
  | input => exact h.congr rfl
  | event _ hr => cases hr <;> exact h.congr rfl

/-- A part of the turn. -/
theorem runs {b : KOp α} {bs cs : List (KOp α)} (h : Turning N k (b :: bs)) (hr : Runs k b t cs) :
    Turning N t (cs ++ bs) := by
  obtain ⟨_ | ⟨b', loop⟩, sops, hops, hloop, halong, hpool⟩ := h
  · cases sops with
    | nil => cases hops
    | cons op sops =>
      rw [List.nil_append, List.map_cons, List.cons.injEq] at hops
      obtain ⟨rfl, rfl⟩ := hops
      cases hr with
      | @srv _ s u _ _ hu hcore _ hcs =>
        refine ⟨cs, sops, rfl, hcs, ?_, fun v hv => ?_⟩
        · show Along bookStep Account.Owed s.account sops
          rw [account_congr hcore, account_run hu]
          exact halong.2 _ rfl
        · obtain ⟨w, hw, hvw⟩ := exec_of_rel (R := fun x y => x.core = y.core)
            (fun _ _ _ _ => core_step) hcore.symm hv
          exact (hpool w (exec_cons_eq_some.mpr ⟨u, hu, hw⟩)).congr hvw
      | loop hb => cases hb
  · rw [List.cons_append, List.cons.injEq] at hops
    obtain ⟨rfl, rfl⟩ := hops
    obtain ⟨hb, hloop⟩ := List.forall_mem_cons.mp hloop
    cases hr with
    | srv => cases hb
    | @loop _ s _ _ _ hcore _ hcs =>
      refine ⟨cs ++ loop, sops, (List.append_assoc ..).symm, fun c hc => ?_, ?_, fun v hv => ?_⟩
      · exact (List.mem_append.mp hc).elim (hcs c) (hloop c)
      · show Along bookStep Account.Owed s.account sops
        rw [account_congr hcore]
        exact halong
      · obtain ⟨w, hw, hvw⟩ := exec_of_rel (R := fun x y => x.core = y.core)
          (fun _ _ _ _ => core_step) hcore.symm hv
        exact (hpool w hw).congr hvw

theorem start (N : ℕ) (pthPool : Bool) (o : Option ConnectResults) :
    Turning N (SyinxKernel.start N pthPool o : SyinxKernel α) [] := by
  have hnew : Turning N (SyinxKernel.new N pthPool : SyinxKernel α) [] := by
    refine ⟨[], [], rfl, List.forall_mem_nil _, Account.Owed.start N, fun s hs => ?_⟩
    cases hs
    exact PoolInv.start N
  cases o with
  | none => exact hnew.congr rfl
  | some o =>
    apply hnew.congr
    have hstart : (SyinxKernel.start N pthPool (some o) : SyinxKernel α) = _ :=
      SyinxKernel.connect_eq _ rfl o
    rw [hstart]
    rfl

end Turning

/-! ### Close -/

/-- A part of `Close` that does not release channels, or their manager. -/
def KOp.spares : KOp α → Bool
  | .srv _ | .parse .. | .write .. | .ifResource | .deleteResource => false
  | _ => true

theorem SyinxKernel.run_spares {b : KOp α} (hb : b.spares = true) {cs : List (KOp α)}
    (h : k.run P b = some (t, cs)) :
    (t.srv = k.srv ∧ t.resourceDeleted = k.resourceDeleted) ∧ ∀ c ∈ cs, c.spares = true := by
  cases b with
  | srv | parse | write | ifResource | deleteResource => cases hb
  | ifBase | ifEvHttp =>
    cases h
    refine ⟨⟨rfl, rfl⟩, fun c hc => ?_⟩
    split_ifs at hc
    · simp only [List.mem_cons, List.not_mem_nil, or_false] at hc
      rcases hc with rfl | rfl <;> rfl
    · cases hc
  | forAllConnect =>
    cases h
    refine ⟨⟨rfl, rfl⟩, fun c hc => ?_⟩
    obtain ⟨l, -, hl⟩ := List.mem_flatMap.mp hc
    simp only [sconnectClose, List.mem_cons, List.not_mem_nil, or_false] at hl
    rcases hl with rfl | rfl <;> rfl
  | freeOutbound c =>
    rw [run, freeOutbound, Option.some.injEq] at h
    split_ifs at h <;> cases h <;> exact ⟨⟨rfl, rfl⟩, by simp [KOp.spares]⟩
  | freeEvbuffer c =>
    cases h
    refine ⟨?_, List.forall_mem_nil _⟩
    split_ifs <;> exact ⟨rfl, rfl⟩
  | crash => cases h
  | poolReturn =>
    simp only [run] at h
    split_ifs at h
    cases h
    exact ⟨⟨rfl, rfl⟩, List.forall_mem_nil _⟩
  | _ => cases h; exact ⟨⟨rfl, rfl⟩, List.forall_mem_nil _⟩

/-- What is left of a loop of `OnStatusDoAction`. -/
theorem triple_loop {Q : SyinxKernel α → Prop} {bs : List (KOp α)} (hbs : ∀ b ∈ bs, b.ofLoop = true)
    (hQ : ∀ t : SyinxKernel α, t.srv.account = k.srv.account →
      t.resourceDeleted = k.resourceDeleted → Q t) :
    Interrupt.Triple (SyinxKernel.run P) Q
      (fun t => t.srv.account = k.srv.account ∧ t.resourceDeleted = k.resourceDeleted) k bs := by
  refine (Interrupt.Triple.of_forall (C := fun b => b.ofLoop = true)
    (Q := fun t => t.srv.account = k.srv.account ∧ t.resourceDeleted = k.resourceDeleted) ?_ ⟨rfl, rfl⟩
    hbs).mono (fun t ht => hQ t ht.1 ht.2) fun _ ht => ht
  rintro t b u cs hb ⟨hacc, hrd⟩ hst
  have hr := SyinxKernel.runs_of_loop hb hst
  refine ⟨?_, hr.ofLoop⟩
  cases hr with
  | srv => cases hb
  | loop _ hcore _ _ => exact ⟨(account_congr hcore).trans hacc, hrd⟩

/-- The channels are released. -/
theorem triple_srv {Q : SyinxKernel α → Prop} {sops : List (Op α)}
    (halong : Along bookStep Account.Single k.srv.account sops)
    (hQ : ∀ t : SyinxKernel α, t.srv.account.Single → t.resourceDeleted = k.resourceDeleted → Q t) :
    Interrupt.Triple (SyinxKernel.run P) Q
      (fun t => t.srv.account.Single ∧ t.resourceDeleted = k.resourceDeleted) k (sops.map .srv) := by
  induction sops generalizing k with
  | nil => exact .nil (hQ k halong rfl) ⟨halong, rfl⟩
  | cons op sops ih =>
    refine .cons (hQ k halong.1 rfl) fun t ds hst => ?_
    have hr := SyinxKernel.runs_of_srv hst
    obtain ⟨hacc, hrd⟩ : t.srv.account = op.book k.srv.account ∧
        t.resourceDeleted = k.resourceDeleted := by
      cases hr with
      | srv hu hcore _ _ => exact ⟨(account_congr hcore).trans (account_run hu), rfl⟩
      | loop hb => cases hb
    have hsops : Along bookStep Account.Single t.srv.account sops := hacc ▸ halong.2 _ rfl
    refine .append (triple_loop hr.ofLoop fun u hu hur => ?_) fun u ⟨hu, hur⟩ => ?_
    · exact hQ u (hu ▸ hsops.first) (hur.trans hrd)
    · rw [← hrd, ← hur]
      exact ih (hu ▸ hsops) fun v hv hvr => hQ v hv ((hvr.trans hur).trans hrd)

/-- **What `Close` does** from any point of a turn releases nothing twice. -/
theorem triple_closeBody (howed : k.srv.account.Owed) (hr : k.resourceDeleted = 0)
    (hres : k.resource = true) :
    Interrupt.Triple (SyinxKernel.run P) SyinxKernel.ReleasedOnce (fun _ => True) k closeBody := by
  have hspares : ∀ (t : SyinxKernel α) (bs : List (KOp α)), t.ReleasedOnce →
      (∀ b ∈ bs, b.spares = true) →
      Interrupt.Triple (SyinxKernel.run P) SyinxKernel.ReleasedOnce (fun _ => True) t bs := by
    intro t bs ht hbs
    refine (Interrupt.Triple.of_forall (C := fun b => b.spares = true) ?_ ht hbs).mono
      (fun _ h => h) fun _ _ => trivial
    intro t b u cs hb ht hst
    obtain ⟨⟨hsrv, hrd⟩, hcs⟩ := SyinxKernel.run_spares hb hst
    refine ⟨?_, hcs⟩
    obtain ⟨h1, h2, h3, h4⟩ := ht
    rw [← hsrv] at h1 h2 h3
    exact ⟨h1, h2, h3, hrd ▸ h4⟩
  have hk : k.ReleasedOnce := .of_account howed.single (by omega)
  refine .cons hk fun t ds hst => ?_
  cases hst
  rw [hres, if_pos rfl, List.append_assoc]
  refine .append (triple_srv howed.along_resourceClose fun t ht hrt => ?_) fun t ht => ?_
  · exact .of_account ht (by omega)
  · obtain ⟨ht, hrt⟩ := ht
    -- the manager is deleted
    refine .cons (.of_account ht (by omega)) fun u ds hu => ?_
    cases hu
    have hdel : t.resourceDeleted + 1 ≤ 1 := by omega
    exact hspares _ [.nullResource, .ifBase, .ifEvHttp, .forAllConnect, .poolClose, .poolReturn, .exit]
      (.of_account ht hdel) (by simp [KOp.spares])

/-! ### After exit -/

/-- `exit` comes last. -/
theorem eq_nil_of_exited (hk : k.exited = false) {bs : List (KOp α)}
    (h : Interrupt.Reaches (SyinxKernel.run P) k closeBody t bs) (ht : t.exited = true) : bs = [] := by
  have hbefore : Interrupt.Triple (SyinxKernel.run P) (fun t => t.exited = false)
      (fun t => t.exited = false) k
      [.ifResource, .ifBase, .ifEvHttp, .forAllConnect, .poolClose, .poolReturn] :=
    .of_forall (C := fun b => b ≠ .exit) (fun _ _ _ _ hb hs hst =>
      ⟨(SyinxKernel.run_frame hb hst).2.1.trans hs, (SyinxKernel.run_frame hb hst).2.2⟩) hk (by simp)
  have hbody : (closeBody : List (KOp α)) =
      [.ifResource, .ifBase, .ifEvHttp, .forAllConnect, .poolClose, .poolReturn] ++ [.exit] := rfl
  rw [hbody] at h
  obtain ⟨ds, -, hreach⟩ | ⟨u, hu, hreach⟩ := h.append_cases
  · rw [(hbefore t ds hreach).1] at ht
    cases ht
  · have hu' := (hbefore u [] hu).1
    obtain ⟨rfl, -⟩ | ⟨v, ds, hv, hreach⟩ := hreach.cons_cases
    · rw [hu'] at ht
      cases ht
    · cases hv
      exact hreach.of_nil.2

/-! ### Over a run -/

/-- What is known at any point of a run. -/
abbrev Point (P : ParseFunc α) (N : ℕ) (p : Process α) : Prop :=
  Interrupt.Shape closeBody (SyinxKernel.run P) (fun k ops => Working k ops ∧ Turning N k ops) p

namespace Point

variable {p q : Process α}

theorem of_exec {pthPool : Bool} {o : Option ConnectResults}
    {as : List (Interrupt.Act (KEvent α))}
    (h : exec (Process.step P) (.start N pthPool o) as = some p) : Point P N p :=
  shape_of_inv (.start N pthPool o) (fun _ _ _ _ hk hI ht => hI.turns hk.base ht)
    (fun _ _ _ _ _ hI hr => hI.runs hr) h

theorem releasedOnce (h : Point P N p) : p.st.ReleasedOnce := by
  obtain ⟨_, hk, hI⟩ | ⟨-, k, _, cs, ⟨hk, hI⟩, hreach⟩ := h.reaches
  · exact .of_account hI.owed.single (by rw [hk.resourceDeleted]; exact Nat.zero_le 1)
  · exact (triple_closeBody hI.owed hk.resourceDeleted hk.resource _ _ hreach).1

/-- What is interrupted by the `Close` that closes stays on the stack, below it. -/
theorem interrupted (h : Point P N p) {k : SyinxKernel α}
    {rest : List (List (Interrupt.Instr (KOp α)))} (he : p.entered = some (k, rest)) :
    p.ended = true ∨ ∃ above, above ≠ [] ∧ p.frames = above ++ rest := by
  obtain hopen | ⟨k', -, ⟨rest', hclose⟩ | hend⟩ := h
  · rw [hopen.entered] at he
    cases he
  · rw [hclose.entered] at he
    cases he
    obtain ⟨bs, is, above, hframes, -⟩ := hclose.frames
    refine .inr ⟨above ++ [bs.map .op ++ is], by simp, ?_⟩
    rw [hframes, List.append_assoc]
    rfl
  · exact .inl hend.ended

/-- After `exit` has been called nothing changes. -/
theorem step_of_exited (h : Point P N p) (hx : p.st.exited = true)
    {a : Interrupt.Act (KEvent α)} (hst : p.step P a = some q) : q.st = p.st := by
  obtain hopen | ⟨k, ⟨_, hk, -⟩, ⟨rest, hclose⟩ | hend⟩ := h
  · obtain ⟨_, _, -, -, hturn⟩ := hopen.frames
    obtain ⟨_, hk, -⟩ := hturn.holds
    rw [hk.exited] at hx
    cases hx
  · exact hclose.st_step (fun bs hreach => eq_nil_of_exited hk.exited hreach hx) hst
  · rw [show p.step P a = none from hend.step a] at hst
    cases hst

theorem step (h : Point P N p) {a : Interrupt.Act (KEvent α)} (hst : p.step P a = some q) :
    Point P N q :=
  shape_step_of_inv (fun _ _ _ _ hk hI ht => hI.turns hk.base ht)
    (fun _ _ _ _ _ hI hr => hI.runs hr) h hst

end Point

/-- **Shutdown by signal.** In every state the program reaches, whatever a `Close` cuts in on,
no channel, `bufferevent` of a client, input buffer or `SyinxAdapterResource` has been
released twice; what the `Close` that did the work has interrupted does not go on; and
once `exit` has been called nothing is released any more. -/
theorem signalSafe_of_exec (P : ParseFunc α) (N : ℕ) (pthPool : Bool) (o : Option ConnectResults)
    (as : List (Interrupt.Act (KEvent α))) (p : Process α)
    (h : exec (Process.step P) (.start N pthPool o) as = some p) :
    p.st.ReleasedOnce ∧
      (∀ k rest, p.entered = some (k, rest) →
        p.ended = true ∨ ∃ above, above ≠ [] ∧ p.frames = above ++ rest) ∧
      (p.st.exited = true →
        ∀ bs q, exec (Process.step P) p bs = some q → q.st = p.st) := by
  have hpoint := Point.of_exec h
  refine ⟨hpoint.releasedOnce, fun k rest he => hpoint.interrupted he, fun hx bs q hq => ?_⟩
  have hinv : Point P N q ∧ q.st = p.st := by
    refine inv_of_exec (I := fun r => Point P N r ∧ r.st = p.st) ?_ ⟨hpoint, rfl⟩ hq
    rintro r a u ⟨hr, hst⟩ hu
    exact ⟨hr.step hu, (hr.step_of_exited (hst ▸ hx) hu).trans hst⟩
  exact hinv.2

/-- A client connects and leaves; a signal comes between `bufferevent_free` and the assignment of
`m_buffer`, and another one before the first has looked at `m_nWorkStatus`. The program runs
until it ends. -/
def cutIn : List (Interrupt.Act (KEvent UInt8)) :=
  [.turn (.server (.listen 7 true))] ++ List.replicate 10 .run ++
    [.turn (.server (.event 0 bevEventEof))] ++ List.replicate 5 .run ++ [.signal, .signal] ++
    List.replicate 25 .run

theorem signalSafe_cutIn :
    ∃ p, exec (Process.step recvValuesFromString) (.start 2 true (some ⟨true, true, true⟩)) cutIn =
        some p ∧ p.ended = true ∧ (p.st.srv.bev 0).freed = 1 ∧ p.st.srv.deleted 1 = 1 ∧
      p.st.ReleasedOnce := by
  have h := signalSafe_of_exec recvValuesFromString 2 true (some ⟨true, true, true⟩) cutIn _ rfl
  exact ⟨_, rfl, rfl, rfl, rfl, h.1⟩

/-- A signal between `evbuffer_remove` and `bufferevent_write`: what has been taken out of the
input buffer is not written any more. -/
example : (exec (Process.step recvValuesFromString) (.start 2 true (some ⟨true, true, true⟩))
    ([.turn (.server (.listen 7 true))] ++ List.replicate 10 .run ++
      [.turn (.server (.recv 0 [1])), .run, .run, .turn (.server .frame), .run, .run, .signal] ++
      List.replicate 35 .run : List (Interrupt.Act (KEvent UInt8)))).map (fun p =>
        (p.ended, (p.st.srv.chan 0).inputEvbuffer, p.st.calls.count (.use (.client 0)))) =
    some (true, [], 4) := rfl

end Syinx.Kernel
