import Syinx.Kernel.Machine

/-!
# What Close calls

Which objects of libevent `SyinxKernel::Close` frees, and in which order: what the channels
have, the base, the evhttp server, and what the links in `m_AllConnect` have. The `bufferevent`
of the first such link is given to `bufferevent_free` when its base is no longer there, and that
is how far `Close` comes.

## What is proved

* `Kept.turns` — a turn frees only `bufferevent`s of clients.
* `triple_calls` — what `Close` has called at every point of it.
* `calls_of_exec` — the same over a run: what has been called before a `Close` and what in it.
-/

namespace Syinx.Kernel

open Syinx.Library Syinx.Tcp

variable {α : Type} {k t : SyinxKernel α}

/-! ### Before Close -/

/-- It may be called in a turn. -/
def Call.ofTurn : Call → Bool
  | .create _ | .use _ | .free (.client _) => true
  | .free _ | .baseFree => false

/-- The calls of a turn are of that kind only. -/
theorem Call.not_mem {x : Call} {cs : List Call} (hcs : ∀ y ∈ cs, y.ofTurn = true)
    (hx : x.ofTurn = false) : x ∉ cs := by
  intro hmem
  rw [hcs x hmem] at hx
  cases hx

/-- Nothing but `bufferevent`s of clients has been freed. -/
def Kept (k : SyinxKernel α) : Prop := ∀ x ∈ k.calls, x.ofTurn = true

theorem Kept.call (h : Kept k) {cs : List Call} (hcs : ∀ x ∈ cs, x.ofTurn = true) :
    Kept (k.call cs) := by
  intro x hx
  rcases List.mem_append.mp hx with hx | hx
  · exact h x hx
  · exact hcs x hx

theorem ConnectResults.ofTurn_calls (o : ConnectResults) (c : ℕ) :
    ∀ x ∈ o.calls c, x.ofTurn = true := by
  intro x hx
  simp only [calls, List.mem_append] at hx
  rcases hx with (hx | hx) | hx <;> split_ifs at hx <;>
    simp only [List.mem_cons, List.not_mem_nil, or_false] at hx
  · rw [hx]; rfl
  · rcases hx with rfl | rfl <;> rfl
  · rcases hx with rfl | rfl | rfl <;> rfl

theorem Kept.connect (h : Kept k) (hbase : k.base = true) (o : ConnectResults) :
    Kept (k.connect o) := by
  have hcalls : (k.connect o).calls = (k.call (o.calls k.nconn)).calls := by
    rw [k.connect_eq hbase]
    rfl
  unfold Kept
  rw [hcalls]
  exact h.call (o.ofTurn_calls _)

theorem Kept.turns (h : Kept k) (hbase : k.base = true) {e : KEvent α} {ops : List (KOp α)}
    (hst : Turns k e t ops) : Kept t := by
  cases hst with
  | server _ hcs =>
    apply Kept.call h
    intro x hx
    obtain ⟨b, rfl⟩ := hcs x hx
    rfl
  | connect o => exact h.connect hbase o
  | input => exact h.call fun x hx => by rw [List.mem_singleton.mp hx]; rfl
  | event _ hr =>
    cases hr with
    | finish => exact h
    | disConnect cs _ _ hcs =>
      apply Kept.call h
      intro x hx
      rw [hcs x hx]
      rfl
    | nothing => exact h

theorem Kept.start (N : ℕ) (pthPool : Bool) (o : Option ConnectResults) :
    Kept (SyinxKernel.start N pthPool o : SyinxKernel α) := by
  cases o with
  | none => exact fun x hx => by rw [List.mem_singleton.mp hx]; rfl
  | some o =>
    refine Kept.connect (k := ({ SyinxKernel.new N pthPool with mode := .tcp, base := true } :
      SyinxKernel α).call [.create .listener]) ?_ rfl o
    exact fun x hx => by rw [List.mem_singleton.mp hx]; rfl

theorem Call.ofTurn_of_ofClient {x : Call} (h : x.ofClient = true) : x.ofTurn = true := by
  unfold ofClient at h
  split at h
  · rfl
  · rfl
  · cases h

/-! ### In Close -/

/-- What `SConnect::Close` calls for these links, with a base that has been freed. -/
def linkCalls (k : SyinxKernel α) : List ℕ → List Call
  | [] => []
  | c :: l =>
    if (k.conn c).buffer then [.use (.outbound c)]
    else (if (k.conn c).inputEvbuffer then [.free (.evbuffer c)] else []) ++ linkCalls k l

/-- What `Close` calls after the base has been freed. -/
def lateCalls (k : SyinxKernel α) : List Call :=
  (if k.evHttp then [.free .evhttp] else []) ++ linkCalls k k.allConnect

theorem mem_linkCalls {x : Call} {l : List ℕ} (h : x ∈ linkCalls k l) :
    ∃ c ∈ l, x = .use (.outbound c) ∨ x = .free (.evbuffer c) ∧ (k.conn c).buffer = false := by
  induction l with
  | nil => cases h
  | cons c l ih =>
    rw [linkCalls] at h
    split_ifs at h with hb hev
    · exact ⟨c, List.mem_cons_self, .inl (List.mem_singleton.mp h)⟩
    · rcases List.mem_append.mp h with h | h
      · exact ⟨c, List.mem_cons_self, .inr ⟨List.mem_singleton.mp h, Bool.eq_false_of_not_eq_true hb⟩⟩
      · obtain ⟨d, hd, hx⟩ := ih h
        exact ⟨d, List.mem_cons_of_mem c hd, hx⟩
    · obtain ⟨d, hd, hx⟩ := ih h
      exact ⟨d, List.mem_cons_of_mem c hd, hx⟩

/-- What `Close` calls after the base has been freed is about neither the base nor the listener. -/
theorem mem_lateCalls {x : Call} (h : x ∈ lateCalls k) :
    x = .free .evhttp ∨ ∃ c ∈ k.allConnect,
      x = .use (.outbound c) ∨ x = .free (.evbuffer c) ∧ (k.conn c).buffer = false := by
  rcases List.mem_append.mp h with h | h
  · split_ifs at h
    · exact .inl (List.mem_singleton.mp h)
    · cases h
  · exact .inr (mem_linkCalls h)

/-- In a `Close` that has begun in `k`: the calls so far, of which `done` are not about clients. -/
structure Torn (k t : SyinxKernel α) (done : List Call) : Prop where
  links : SameLinks k t
  released : t.released = false
  crashed : t.crashed = false
  calls : ∃ clients : List Call, (∀ x ∈ clients, x.ofClient = true) ∧
    t.calls = k.calls ++ (clients ++ done)

/-- What `Close` has called, at any point of it. -/
structure Closes (k t : SyinxKernel α) : Prop where
  conn : t.conn = k.conn
  nconn : t.nconn = k.nconn
  refused : t.refused = k.refused
  history : t.history = k.history
  /-- `~SyinxKernel` clears the list. -/
  allConnect : t.allConnect ⊆ k.allConnect
  /-- The calls about clients come first, and of the others some have been made. -/
  calls : ∃ clients done todo : List Call, (∀ x ∈ clients, x.ofClient = true) ∧
    done ++ todo = .baseFree :: lateCalls k ∧ t.calls = k.calls ++ (clients ++ done) ∧
    (t.Finished → todo = [])

theorem Torn.not_finished {done : List Call} (h : Torn k t done) : ¬ t.Finished := by
  rintro (hr | hc)
  · rw [h.released] at hr
    cases hr
  · rw [h.crashed] at hc
    cases hc

theorem Torn.closes {done : List Call} (h : Torn k t done) (todo : List Call)
    (hdone : done ++ todo = .baseFree :: lateCalls k) : Closes k t := by
  obtain ⟨clients, hclients, hcalls⟩ := h.calls
  refine ⟨h.links.conn, h.links.nconn, h.links.refused, h.links.history,
    h.links.allConnect ▸ List.Subset.refl _, clients, done, todo, hclients, hdone, hcalls,
    fun hf => absurd hf h.not_finished⟩

/-- What has been called since `Close` began. -/
theorem Closes.later (h : Closes k t) : ∃ cs, t.calls = k.calls ++ cs ∧
    ∀ x ∈ cs, x.ofClient = true ∨ x = .baseFree ∨ x ∈ lateCalls k := by
  obtain ⟨clients, done, todo, hclients, hdone, hcalls, -⟩ := h.calls
  refine ⟨clients ++ done, hcalls, fun x hx => ?_⟩
  rcases List.mem_append.mp hx with hx | hx
  · exact .inl (hclients x hx)
  · have hall : x ∈ .baseFree :: lateCalls k := by
      rw [← hdone]
      exact List.mem_append_left _ hx
    exact .inr (List.mem_cons.mp hall)

/-- Something is called. -/
theorem Torn.call {done : List Call} (h : Torn k t done) (cs : List Call) :
    Torn k (t.call cs) (done ++ cs) := by
  obtain ⟨⟨h1, h2, h3, h4, h5, h6⟩, hreleased, hcrashed, clients, hclients, hcalls⟩ := h
  refine ⟨⟨h1, h2, h3, h4, h5, h6⟩, hreleased, hcrashed, clients, hclients, ?_⟩
  show t.calls ++ cs = _
  rw [hcalls]
  simp

/-- `Torn` is about links and calls. -/
theorem Torn.congr {done : List Call} (h : Torn k t done) {u : SyinxKernel α} (hl : SameLinks t u)
    (hr : u.released = t.released) (hx : u.crashed = t.crashed) (hc : u.calls = t.calls) :
    Torn k u done := by
  obtain ⟨clients, hclients, hcalls⟩ := h.calls
  exact ⟨h.links.trans hl, hr.trans h.released, hx.trans h.crashed, clients, hclients,
    hc.trans hcalls⟩

/-- Something that is there is freed. -/
theorem Torn.freeIf {done : List Call} (h : Torn k t done) (b : Bool) (x : Call) :
    Torn k (if b then t.call [x] else t) (done ++ if b then [x] else []) := by
  cases b with
  | false => simpa using h
  | true => exact h.call [x]

/-- All calls have been made. -/
theorem Torn.closes_of_calls (h : Torn k t (.baseFree :: lateCalls k)) {u : SyinxKernel α}
    (hn : u.conn = t.conn) (hm : u.nconn = t.nconn) (hr : u.refused = t.refused)
    (hh : u.history = t.history) (ha : u.allConnect ⊆ t.allConnect) (hc : u.calls = t.calls) :
    Closes k u := by
  obtain ⟨clients, hclients, hcalls⟩ := h.calls
  exact ⟨hn.trans h.links.conn, hm.trans h.links.nconn, hr.trans h.links.refused,
    hh.trans h.links.history, h.links.allConnect ▸ ha, clients, _, [], hclients, List.append_nil _,
    hc.trans hcalls, fun _ => rfl⟩

section Run

variable [Inhabited α] {P : ParseFunc α}

/-- A part of the first block of `Close`. -/
def KOp.ofResource : KOp α → Bool
  | .srv _ | .parse .. | .write .. | .ifResource | .deleteResource | .nullResource => true
  | _ => false

omit [Inhabited α] in
theorem KOp.ofResource_of_ofLoop {b : KOp α} (h : b.ofLoop = true) : b.ofResource = true := by
  cases b <;> first | rfl | cases h

/-- What the channels do. -/
theorem Torn.runs (h : Torn k t []) {b : KOp α} {u : SyinxKernel α} {cs : List (KOp α)}
    (hr : Runs t b u cs) : Torn k u [] ∧ u.base = t.base ∧ u.evHttp = t.evHttp := by
  have hcall : ∀ (s : Server α) (xs : List Call), (∀ x ∈ xs, x.ofClient = true) →
      Torn k ({ t with srv := s }.call xs) [] := by
    intro s xs hxs
    obtain ⟨hl, hrel, hcrash, clients, hclients, hcalls⟩ := h
    refine ⟨hl.trans (.srv t s xs), hrel, hcrash, clients ++ xs, fun x hx => ?_, ?_⟩
    · exact (List.mem_append.mp hx).elim (hclients x) (hxs x)
    · show t.calls ++ xs = _
      rw [hcalls]
      simp
  cases hr with
  | srv _ _ hxs _ => exact ⟨hcall _ _ hxs, rfl, rfl⟩
  | loop _ _ hxs _ => exact ⟨hcall _ _ hxs, rfl, rfl⟩

/-- The channels and their manager. -/
theorem triple_ifResource (hr : k.released = false) (hx : k.crashed = false) :
    Interrupt.Triple (SyinxKernel.run P)
      (fun t => Torn k t [] ∧ t.base = k.base ∧ t.evHttp = k.evHttp)
      (fun t => Torn k t [] ∧ t.base = k.base ∧ t.evHttp = k.evHttp) k [.ifResource] := by
  refine .of_forall (C := fun b => b.ofResource = true) ?_
    ⟨⟨.refl k, hr, hx, [], List.forall_mem_nil _, by simp⟩, rfl, rfl⟩ (by simp [KOp.ofResource])
  rintro t b u cs hb ⟨ht, hbase, hhttp⟩ hst
  have hruns : Runs t b u cs →
      (Torn k u [] ∧ u.base = k.base ∧ u.evHttp = k.evHttp) ∧ ∀ c ∈ cs, c.ofResource = true := by
    intro hr
    obtain ⟨hu, hubase, huhttp⟩ := ht.runs hr
    exact ⟨⟨hu, hubase.trans hbase, huhttp.trans hhttp⟩,
      fun c hc => KOp.ofResource_of_ofLoop (hr.ofLoop c hc)⟩
  cases b with
  | srv op => exact hruns (SyinxKernel.runs_of_srv hst)
  | parse | write => exact hruns (SyinxKernel.runs_of_loop rfl hst)
  | ifResource =>
    cases hst
    refine ⟨⟨ht, hbase, hhttp⟩, fun c hc => ?_⟩
    split_ifs at hc
    · simp only [List.mem_append, List.mem_map, List.mem_cons, List.not_mem_nil, or_false] at hc
      rcases hc with ⟨op, -, rfl⟩ | rfl | rfl <;> rfl
    · cases hc
  | deleteResource | nullResource =>
    cases hst
    exact ⟨⟨ht.congr ⟨rfl, rfl, rfl, rfl, rfl, rfl⟩ rfl rfl rfl, hbase, hhttp⟩,
      List.forall_mem_nil _⟩
  | _ => cases hb

/-- The links in `m_AllConnect`: `Close` gets through them if none has a `bufferevent`. -/
theorem triple_forAllConnect {l : List ℕ} {done : List Call} (h : Torn k t done)
    (hbase : .baseFree ∈ done) (hdone : done ++ linkCalls k l = .baseFree :: lateCalls k) :
    Interrupt.Triple (SyinxKernel.run P) (Closes k)
      (fun u => Torn k u (.baseFree :: lateCalls k)) t (l.flatMap SyinxKernel.sconnectClose) := by
  induction l generalizing t done with
  | nil =>
    rw [linkCalls, List.append_nil] at hdone
    exact .nil (h.closes [] (by rw [hdone, List.append_nil])) (hdone ▸ h)
  | cons c l ih =>
    refine .cons (h.closes _ hdone) fun u ds hst => ?_
    have hconn : t.conn c = k.conn c := by rw [h.links.conn]
    rw [linkCalls] at hdone
    rw [SyinxKernel.run, SyinxKernel.freeOutbound, hconn, Option.some.injEq] at hst
    split_ifs at hst with hb hfreed
    · -- it has no `bufferevent`
      rw [hb, if_neg Bool.false_ne_true, ← List.append_assoc] at hdone
      cases hst
      refine .cons (h.closes _ (by rw [← hdone, List.append_assoc])) fun v ds hst => ?_
      cases hst
      have h1 := h.freeIf (t.conn c).inputEvbuffer (.free (.evbuffer c))
      rw [hconn] at h1 ⊢
      exact ih h1 (List.mem_append_left _ hbase) hdone
    · -- `bufferevent_free` does not return
      rw [Bool.not_eq_false] at hb
      rw [hb, if_pos rfl] at hdone
      cases hst
      have h1 := h.call [.use (.outbound c)]
      rw [hdone] at h1
      refine .cons (h1.closes_of_calls rfl rfl rfl rfl (List.Subset.refl _) rfl) fun v ds hst => ?_
      cases hst
    · -- the base has been freed
      obtain ⟨clients, -, hcalls⟩ := h.calls
      refine absurd (decide_eq_true ?_) hfreed
      rw [hcalls]
      exact List.mem_append_right _ (List.mem_append_right _ hbase)

/-- The evhttp server. -/
theorem triple_ifEvHttp (h : Torn k t [.baseFree]) (hhttp : t.evHttp = k.evHttp) :
    Interrupt.Triple (SyinxKernel.run P) (Closes k)
      (fun u => Torn k u (.baseFree :: if k.evHttp then [.free .evhttp] else [])) t [.ifEvHttp] := by
  refine .cons (h.closes (lateCalls k) rfl) fun u ds hst => ?_
  cases hst
  rw [List.append_nil, hhttp]
  have hlate : ([.baseFree] ++ if k.evHttp then [.free .evhttp] else []) ++
      linkCalls k k.allConnect = .baseFree :: lateCalls k := by
    rw [List.append_assoc]
    rfl
  cases he : k.evHttp with
  | false => exact .nil (h.closes (lateCalls k) rfl) h
  | true =>
    rw [he] at hlate
    have h1 : Torn k (t.call [.free .evhttp]) ([.baseFree] ++ [.free .evhttp]) := h.call _
    refine .cons (h.closes (lateCalls k) rfl) fun u ds hst => ?_
    cases hst
    refine .cons (h1.closes _ hlate) fun u ds hst => ?_
    cases hst
    have h2 : Torn k ({ t.call [.free .evhttp] with evHttp := false } : SyinxKernel α)
        ([.baseFree] ++ [.free .evhttp]) := h1.congr ⟨rfl, rfl, rfl, rfl, rfl, rfl⟩ rfl rfl rfl
    exact .nil (h2.closes _ hlate) h2

/-- The end of `Close`. -/
theorem triple_poolClose (h : Torn k t (.baseFree :: lateCalls k)) :
    Interrupt.Triple (SyinxKernel.run P) (Closes k) (fun _ => True) t
      [.poolClose, .poolReturn, .exit] := by
  have hsame : t.allConnect ⊆ t.allConnect := List.Subset.refl _
  refine .cons (h.closes_of_calls rfl rfl rfl rfl hsame rfl) fun u ds hst => ?_
  cases hst
  refine .cons (h.closes_of_calls rfl rfl rfl rfl hsame rfl) fun u ds hst => ?_
  simp only [SyinxKernel.run] at hst
  split_ifs at hst
  cases hst
  refine .cons (h.closes_of_calls rfl rfl rfl rfl hsame rfl) fun u ds hst => ?_
  cases hst
  exact .nil (h.closes_of_calls rfl rfl rfl rfl (List.nil_subset _) rfl) trivial

/-- **What `Close` calls**, at every point of it. -/
theorem triple_calls {ops : List (KOp α)} (h : Working k ops) :
    Interrupt.Triple (SyinxKernel.run P) (Closes k) (fun _ => True) k closeBody := by
  have hbody : (closeBody : List (KOp α)) =
      [.ifResource] ++ [.ifBase, .ifEvHttp, .forAllConnect, .poolClose, .poolReturn, .exit] := rfl
  rw [hbody]
  refine .append ((triple_ifResource h.released h.crashed).mono (fun t ht => ?_) fun _ ht => ht)
    fun t ht => ?_
  · exact ht.1.closes (.baseFree :: lateCalls k) rfl
  obtain ⟨ht, hbase, hhttp⟩ := ht
  rw [h.base] at hbase
  -- the base
  refine .cons (ht.closes (.baseFree :: lateCalls k) rfl) fun u ds hst => ?_
  cases hst
  rw [hbase, if_pos rfl]
  refine .cons (ht.closes (.baseFree :: lateCalls k) rfl) fun u ds hst => ?_
  cases hst
  have h1 : Torn k (t.call [.baseFree]) [.baseFree] := ht.call [.baseFree]
  refine .cons (h1.closes (lateCalls k) rfl) fun u ds hst => ?_
  cases hst
  have h2 : Torn k ({ t.call [.baseFree] with base := false } : SyinxKernel α) [.baseFree] :=
    h1.congr ⟨rfl, rfl, rfl, rfl, rfl, rfl⟩ rfl rfl rfl
  show Interrupt.Triple _ _ _ _
    ([KOp.ifEvHttp] ++ [KOp.forAllConnect, KOp.poolClose, KOp.poolReturn, KOp.exit])
  refine .append (triple_ifEvHttp h2 hhttp) fun u hu => ?_
  have hlate : (.baseFree :: if k.evHttp then [.free .evhttp] else []) ++
      linkCalls k k.allConnect = .baseFree :: lateCalls k := rfl
  refine .cons (hu.closes _ hlate) fun v ds hst => ?_
  cases hst
  rw [hu.links.allConnect]
  exact .append (triple_forAllConnect hu List.mem_cons_self hlate) fun v hv => triple_poolClose hv

/-- **What has been called**: while the kernel works, only `bufferevent`s of clients are freed;
and when it is closing, `Close` began in a state like that. -/
theorem calls_of_exec {N : ℕ} {pthPool : Bool} {o : Option ConnectResults}
    {I : SyinxKernel α → Prop} (hstart : I (.start N pthPool o))
    (hturn : ∀ k e t ops, Working k [] → I k → Turns k e t ops → I t)
    (hrun : ∀ k s cs, (∀ x ∈ cs, Call.ofClient x = true) → I k →
      I ({ k with srv := s }.call cs))
    {as : List (Interrupt.Act (KEvent α))} {p : Process α}
    (h : exec (Process.step P) (.start N pthPool o) as = some p) :
    ((∃ ops, Working p.st ops) ∧ I p.st ∧ Kept p.st) ∨
      p.closed = true ∧ ∃ k ops, Working k ops ∧ I k ∧ Kept k ∧ Closes k p.st := by
  have hkeep : ∀ (k : SyinxKernel α) (b : KOp α) (t : SyinxKernel α) (bs cs : List (KOp α)),
      I k ∧ Kept k → Runs k b t cs → I t ∧ Kept t := by
    rintro k b t bs cs ⟨hI, hkept⟩ hr
    cases hr with
    | srv _ _ hxs _ | loop _ _ hxs _ =>
      exact ⟨hrun _ _ _ hxs hI, Kept.call hkept fun x hx => Call.ofTurn_of_ofClient (hxs x hx)⟩
  have hshape := shape_of_inv (I := fun k _ => I k ∧ Kept k) ⟨hstart, .start N pthPool o⟩
    (fun k e t ops hk hI ht => ⟨hturn k e t ops hk hI.1 ht, hI.2.turns hk.base ht⟩)
    hkeep h
  obtain ⟨ops, hk, hI, hkept⟩ | ⟨hclosed, k, ops, cs, ⟨hk, hI, hkept⟩, hreach⟩ := hshape.reaches
  · exact .inl ⟨⟨ops, hk⟩, hI, hkept⟩
  · exact .inr ⟨hclosed, k, ops, hk, hI, hkept, (triple_calls hk _ _ hreach).1⟩

end Run

/-- A signal ends the program, after so many steps. -/
def closedBySignal (n : ℕ) : List (Interrupt.Act (KEvent UInt8)) := .signal :: List.replicate n .run

end Syinx.Kernel
