import Syinx.Kernel.Closing
import Syinx.Kernel.Links

/-!
# The ledger of the links

What `Connect` has created for a link is to be freed by `SConnect::Close`, which is called for the
links in `m_AllConnect` only: those that have been connected and have not hung up. A link that
`Connect` gives up, one that is still pending and one that has hung up keep what they have; and
for the first link in the list `bufferevent_free` is called with a base that has been freed, so
that `Close` comes no further. In the end no link that has got its `evbuffer` has been freed.

A link that `DisConnect` takes off the list is still the argument of the callbacks of its
`bufferevent`. Libevent gets at that through `ev_read` and `ev_write`, as long as one of them is on
the base.

What happens to the links is decided by what `Connect` is told and what is reported to
`ConnectEvent`, that is by the actions of the run (`linkEvents`).

## What is proved

* `Books.turns` — what has been created for a link, which links were refused, what its status is and
  which events are on the base, from what has happened.
* `audited_of_exec` — nothing of a link is ever freed.
* `ledger_iff` — the ledger is right exactly if no `Connect` fails once it has its `evbuffer`, no
  link is removed that is not on the base any more, none is when the base is freed, and none
  has been made when `Close` comes as far as it comes.
-/

namespace Syinx.Kernel

open Syinx.Library Syinx.Tcp

variable {α : Type} {k t : SyinxKernel α} {c : ℕ} {o : ConnectResults} {h : List LinkEvent}

/-! ### What happens to the links -/

/-- What a call of `Connect` was told. -/
def LinkEvent.results : LinkEvent → Option ConnectResults
  | .connect o => some o
  | .event _ _ => none

/-- What the calls of `Connect` were told; the one for `c` stands at `c`. -/
def connects (h : List LinkEvent) : List ConnectResults := h.filterMap LinkEvent.results

/-- `m_Status` of `c` after an event. -/
def LinkEvent.status (c : ℕ) (st : ConnectStatus) : LinkEvent → ConnectStatus
  | .connect _ => st
  | .event d what =>
    if d = c then
      if finishes what then .clientLogin else if hangsUp what then .clientLogout else st
    else st

/-- `m_Status` of `c`. -/
def linkStatus (h : List LinkEvent) (c : ℕ) : ConnectStatus := h.foldl (LinkEvent.status c) .initial

/-- No event of `c` is of this kind. -/
def Unreported (h : List LinkEvent) (c : ℕ) (kind : BitVec 16 → Bool) : Prop :=
  ∀ what, .event c what ∈ h → kind what = false

/-- `ev_read` or `ev_write` of `c` has not been taken off the base by an event. -/
def Watched (h : List LinkEvent) (c : ℕ) : Prop :=
  Unreported h c dropsRead ∨ Unreported h c dropsWrite

/-- An action that is about a link. -/
def linkEvent : Interrupt.Act (KEvent α) → Option LinkEvent
  | .turn (.connect o) => some (.connect o)
  | .turn (.event c what) => some (.event c what)
  | _ => none

/-- What happens to the links in a run; `TCPServer` calls `Connect` too. -/
def linkEvents (o : Option ConnectResults) (as : List (Interrupt.Act (KEvent α))) :
    List LinkEvent :=
  (o.map LinkEvent.connect).toList ++ as.filterMap linkEvent

/-- No `Connect` fails once it has its `evbuffer`. -/
def AllSucceed (h : List LinkEvent) : Prop :=
  ∀ (c : ℕ) (o : ConnectResults), (connects h)[c]? = some o → o.evbufferNew = true → o.ok = true

/-- The links that `DisConnect` has removed are watched. -/
def RemovedWatched (h : List LinkEvent) : Prop := ∀ c, linkStatus h c = .clientLogout → Watched h c

/-- There is no link that `DisConnect` has removed. -/
def NoneRemoved (h : List LinkEvent) : Prop := ∀ c, linkStatus h c ≠ .clientLogout

/-- No `Connect` has got its `evbuffer`. -/
def NoneMade (h : List LinkEvent) : Prop :=
  ∀ (c : ℕ) (o : ConnectResults), (connects h)[c]? = some o → o.evbufferNew = false

theorem connects_append (h h' : List LinkEvent) :
    connects (h ++ h') = connects h ++ connects h' := List.filterMap_append

theorem connects_connect (h : List LinkEvent) (o : ConnectResults) :
    connects (h ++ [.connect o]) = connects h ++ [o] := connects_append h [.connect o]

theorem connects_event (h : List LinkEvent) (c : ℕ) (what : BitVec 16) :
    connects (h ++ [.event c what]) = connects h := by
  rw [connects_append]
  exact List.append_nil _

theorem linkStatus_concat (h : List LinkEvent) (e : LinkEvent) (c : ℕ) :
    linkStatus (h ++ [e]) c = e.status c (linkStatus h c) := by
  rw [linkStatus, List.foldl_append]
  rfl

theorem unreported_connect (h : List LinkEvent) (o : ConnectResults) (c : ℕ)
    (kind : BitVec 16 → Bool) : Unreported (h ++ [.connect o]) c kind ↔ Unreported h c kind := by
  simp [Unreported]

theorem unreported_event (h : List LinkEvent) (c d : ℕ) (what : BitVec 16)
    (kind : BitVec 16 → Bool) :
    Unreported (h ++ [.event d what]) c kind ↔
      Unreported h c kind ∧ (c = d → kind what = false) := by
  simp only [Unreported, List.mem_append, List.mem_singleton, LinkEvent.event.injEq]
  constructor
  · exact fun hk => ⟨fun w hw => hk w (.inl hw), fun hc => hk what (.inr ⟨hc, rfl⟩)⟩
  · rintro ⟨hk, hnew⟩ w (hw | ⟨hc, rfl⟩)
    · exact hk w hw
    · exact hnew hc

theorem AllSucceed.left {h' : List LinkEvent} (hs : AllSucceed (h ++ h')) : AllSucceed h := by
  intro c o ho
  apply hs c o
  have hlt : c < (connects h).length := (List.getElem?_eq_some_iff.mp ho).1
  rw [connects_append, List.getElem?_append_left hlt]
  exact ho

/-! ### The ledger -/

/-- If it has been created for `c`, it has been freed once. -/
def SyinxKernel.FreedOnce (k : SyinxKernel α) (c : ℕ) : Prop :=
  ∀ x ∈ [Obj.evbuffer c, .outbound c], .create x ∈ k.calls → k.calls.count (.free x) = 1

/-- A link for which `Connect` has returned null has been freed. -/
def SyinxKernel.RefusedFreed (k : SyinxKernel α) : Prop := ∀ c ∈ k.refused, k.FreedOnce c

/-- Libevent has an event of the `bufferevent` of `c` on its base. -/
def SyinxKernel.Watches (k : SyinxKernel α) (c : ℕ) : Prop :=
  k.baseFreed = false ∧ ((k.conn c).evRead = true ∨ (k.conn c).evWrite = true)

/-- A link that `DisConnect` has removed is still in the list, or libevent gets at it as the
argument of callbacks to come; or it has been freed. -/
def SyinxKernel.RemovedHeld (k : SyinxKernel α) : Prop :=
  ∀ c, (k.conn c).status = .clientLogout → c ∈ k.allConnect ∨ k.Watches c ∨ k.FreedOnce c

/-- What is known of the links, from what has happened to them. -/
structure Books (k : SyinxKernel α) : Prop where
  nconn : k.nconn = (connects k.history).length
  made : ∀ c, (k.conn c).ctx = true ↔ ∃ o, (connects k.history)[c]? = some o ∧ o.ok = true
  buffer : ∀ c, (k.conn c).buffer = (k.conn c).ctx
  status : ∀ c, (k.conn c).status = linkStatus k.history c
  ctx : ∀ c, (k.conn c).status ≠ .initial → (k.conn c).ctx = true
  old : ∀ c what, .event c what ∈ k.history → c < k.nconn
  read : ∀ c, (k.conn c).ctx = true →
    ((k.conn c).evRead = true ↔ Unreported k.history c dropsRead)
  write : ∀ c, (k.conn c).ctx = true →
    ((k.conn c).evWrite = true ↔ Unreported k.history c dropsWrite)
  refused : ∀ c, c ∈ k.refused ↔ ∃ o, (connects k.history)[c]? = some o ∧ o.ok = false
  evbuffer : ∀ c, .create (.evbuffer c) ∈ k.calls ↔
    ∃ o, (connects k.history)[c]? = some o ∧ o.evbufferNew = true
  outbound : ∀ c, .create (.outbound c) ∈ k.calls ↔
    ∃ o, (connects k.history)[c]? = some o ∧ (o.evbufferNew && o.socketNew) = true

theorem ConnectResults.mem_calls (o : ConnectResults) (c d : ℕ) :
    (.create (.evbuffer d) ∈ o.calls c ↔ d = c ∧ o.evbufferNew = true) ∧
      (.create (.outbound d) ∈ o.calls c ↔ d = c ∧ (o.evbufferNew && o.socketNew) = true) := by
  obtain ⟨_ | _, _ | _, _ | _⟩ := o <;> simp [calls, ok]

theorem ConnectResults.conn_ok (o : ConnectResults) :
    o.conn.buffer = o.ok ∧ o.conn.ctx = o.ok ∧ o.conn.evRead = o.ok ∧ o.conn.evWrite = o.ok := by
  unfold conn
  split_ifs with hok
  · exact ⟨hok.symm, hok.symm, hok.symm, hok.symm⟩
  · rw [Bool.not_eq_true] at hok
    exact ⟨hok.symm, hok.symm, hok.symm, hok.symm⟩

/-- Of the links there will be only the next one. -/
theorem getElem?_connects_connect (h : List LinkEvent) (o o' : ConnectResults) (c : ℕ) :
    (connects (h ++ [.connect o]))[c]? = some o' ↔
      (connects h)[c]? = some o' ∨ c = (connects h).length ∧ o' = o := by
  rw [connects_connect]
  by_cases hc : c = (connects h).length
  · subst hc
    simp [eq_comm]
  · rcases Nat.lt_or_gt_of_ne hc with hlt | hgt
    · rw [List.getElem?_append_left hlt]
      simp [hc]
    · rw [List.getElem?_eq_none (by rw [List.length_append, List.length_singleton]; omega),
        List.getElem?_eq_none hgt.le]
      simp [hc]

theorem exists_connects_connect (h : List LinkEvent) (o : ConnectResults) (c : ℕ)
    (p : ConnectResults → Prop) :
    (∃ o', (connects (h ++ [.connect o]))[c]? = some o' ∧ p o') ↔
      (∃ o', (connects h)[c]? = some o' ∧ p o') ∨ c = (connects h).length ∧ p o := by
  simp only [getElem?_connects_connect, or_and_right, exists_or]
  simp

/-- It creates something for a link. -/
def Call.forLink : Call → Bool
  | .create (.evbuffer _) | .create (.outbound _) => true
  | _ => false

theorem Call.forLink_of_ofClient {x : Call} (hx : x.ofClient = true) : x.forLink = false := by
  unfold ofClient at hx
  split at hx
  · rfl
  · rfl
  · cases hx

namespace Books

theorem lt (hk : Books k) (ho : (connects k.history)[c]? = some o) : c < k.nconn := by
  rw [hk.nconn]
  exact (List.getElem?_eq_some_iff.mp ho).1

theorem connect (hk : Books k) (hl : Linked k) (hbase : k.base = true) (o : ConnectResults) :
    Books (k.connect o) := by
  have hstatus : (k.conn k.nconn).status = .initial := by rw [hl.fresh _ le_rfl]; rfl
  have hlast : ∀ kind, Unreported k.history k.nconn kind :=
    fun kind what hmem => absurd (hk.old _ what hmem) (lt_irrefl _)
  have hevents : ∀ (c : ℕ) (on : SConnect → Bool) (kind : BitVec 16 → Bool), on o.conn = o.ok →
      ((k.conn c).ctx = true → (on (k.conn c) = true ↔ Unreported k.history c kind)) →
      (Function.update k.conn k.nconn o.conn c).ctx = true →
        (on (Function.update k.conn k.nconn o.conn c) = true ↔
          Unreported (k.history ++ [.connect o]) c kind) := by
    intro c on kind hon hc hctx
    rw [unreported_connect]
    by_cases hcn : c = k.nconn
    · subst hcn
      rw [Function.update_self] at hctx ⊢
      exact iff_of_true (hon.trans (o.conn_ok.2.1 ▸ hctx)) (hlast kind)
    · rw [Function.update_of_ne hcn] at hctx ⊢
      exact hc hctx
  rw [k.connect_eq hbase]
  refine ⟨?_, fun c => ?_, fun c => ?_, fun c => ?_, fun c => ?_, fun c what hmem => ?_,
    fun c => hevents c _ _ o.conn_ok.2.2.1 (hk.read c),
    fun c => hevents c _ _ o.conn_ok.2.2.2 (hk.write c), fun c => ?_, fun c => ?_, fun c => ?_⟩
  · show k.nconn + 1 = _
    rw [connects_connect, List.length_append, List.length_singleton, hk.nconn]
  · show (Function.update k.conn k.nconn o.conn c).ctx = true ↔
      ∃ o', (connects (k.history ++ [.connect o]))[c]? = some o' ∧ o'.ok = true
    rw [exists_connects_connect, ← hk.nconn]
    by_cases hc : c = k.nconn
    · subst hc
      rw [Function.update_self, o.conn_ok.2.1]
      refine ⟨fun hok => .inr ⟨rfl, hok⟩, ?_⟩
      rintro (⟨o', ho', -⟩ | ⟨-, hok⟩)
      · exact absurd (hk.lt ho') (lt_irrefl _)
      · exact hok
    · rw [Function.update_of_ne hc, hk.made c, or_iff_left fun hn => hc hn.1]
  · show (Function.update k.conn k.nconn o.conn c).buffer =
      (Function.update k.conn k.nconn o.conn c).ctx
    by_cases hc : c = k.nconn
    · subst hc
      rw [Function.update_self, o.conn_ok.1, o.conn_ok.2.1]
    · rw [Function.update_of_ne hc, hk.buffer c]
  · show _ = linkStatus (k.history ++ [.connect o]) c
    rw [linkStatus_concat]
    refine Eq.trans ?_ (hk.status c)
    by_cases hc : c = k.nconn
    · subst hc
      simp [hstatus, o.status_conn]
    · simp [hc]
  · by_cases hc : c = k.nconn
    · subst hc
      simp [o.status_conn]
    · simpa [hc] using hk.ctx c
  · rcases List.mem_append.mp hmem with hmem | hmem
    · exact (hk.old c what hmem).trans (Nat.lt_succ_self _)
    · cases List.mem_singleton.mp hmem
  · show c ∈ (if o.ok then k.refused else k.refused ++ [k.nconn]) ↔
      ∃ o', (connects (k.history ++ [.connect o]))[c]? = some o' ∧ o'.ok = false
    rw [exists_connects_connect, ← hk.nconn, ← hk.refused]
    cases o.ok <;> simp
  · show _ ∈ k.calls ++ o.calls k.nconn ↔
      ∃ o', (connects (k.history ++ [.connect o]))[c]? = some o' ∧ _
    rw [exists_connects_connect, ← hk.nconn, ← hk.evbuffer, List.mem_append, (o.mem_calls _ _).1]
  · show _ ∈ k.calls ++ o.calls k.nconn ↔
      ∃ o', (connects (k.history ++ [.connect o]))[c]? = some o' ∧ _
    rw [exists_connects_connect, ← hk.nconn, ← hk.outbound, List.mem_append, (o.mem_calls _ _).2]

/-- Nothing is created for the links. -/
theorem created_iff {cs : List Call} (hcalls : t.calls = k.calls ++ cs)
    (hcs : ∀ x ∈ cs, x.forLink = false) {x : Call} (hx : x.forLink = true) :
    x ∈ t.calls ↔ x ∈ k.calls := by
  rw [hcalls, List.mem_append, or_iff_left]
  intro hxc
  rw [hcs x hxc] at hx
  cases hx

/-- Nothing happens to the links. -/
theorem congr (hk : Books k) (hnconn : t.nconn = k.nconn) (hrefused : t.refused = k.refused)
    (hconn : t.conn = k.conn) (hhistory : t.history = k.history)
    {cs : List Call} (hcalls : t.calls = k.calls ++ cs) (hcs : ∀ x ∈ cs, x.forLink = false) :
    Books t := by
  refine ⟨?_, ?_, ?_, ?_, ?_, ?_, ?_, ?_, fun c => ?_, fun c => ?_, fun c => ?_⟩
  · rw [hnconn, hhistory, hk.nconn]
  · rw [hconn, hhistory]
    exact hk.made
  · rw [hconn]
    exact hk.buffer
  · rw [hconn, hhistory]
    exact hk.status
  · rw [hconn]
    exact hk.ctx
  · rw [hnconn, hhistory]
    exact hk.old
  · rw [hconn, hhistory]
    exact hk.read
  · rw [hconn, hhistory]
    exact hk.write
  · rw [hrefused, hhistory]
    exact hk.refused c
  · rw [created_iff hcalls hcs rfl, hhistory]
    exact hk.evbuffer c
  · rw [created_iff hcalls hcs rfl, hhistory]
    exact hk.outbound c

/-- An event is reported to `c`, and `m_Status` of `c` is set to what it says. -/
theorem setStatus (hk : Books k) (hc : (k.conn c).ctx = true) {what : BitVec 16}
    (hnconn : t.nconn = k.nconn) (hrefused : t.refused = k.refused)
    (hconn : t.conn = Function.update k.conn c { (k.conn c).told what with
      status := (LinkEvent.event c what).status c (k.conn c).status })
    (hhistory : t.history = k.history ++ [.event c what])
    {cs : List Call} (hcalls : t.calls = k.calls ++ cs) (hcs : ∀ x ∈ cs, x.forLink = false) :
    Books t := by
  have hconnects : connects t.history = connects k.history := by rw [hhistory, connects_event]
  have hlt : c < k.nconn := by
    obtain ⟨o, ho, -⟩ := (hk.made c).mp hc
    exact hk.lt ho
  have hevents : ∀ (d : ℕ) (on : SConnect → Bool) (drops : BitVec 16 → Bool),
      on { (k.conn c).told what with
          status := (LinkEvent.event c what).status c (k.conn c).status } =
        (on (k.conn c) && !drops what) →
      ((k.conn d).ctx = true → (on (k.conn d) = true ↔ Unreported k.history d drops)) →
      (t.conn d).ctx = true → (on (t.conn d) = true ↔ Unreported t.history d drops) := by
    intro d on drops hon hd hctx
    rw [hhistory, unreported_event]
    rw [hconn] at hctx ⊢
    by_cases hdc : d = c
    · subst hdc
      rw [Function.update_self, hon, Bool.and_eq_true, hd hc, Bool.not_eq_true']
      exact and_congr_right fun _ => (true_imp_iff (α := _)).symm.trans (by simp)
    · rw [Function.update_of_ne hdc] at hctx ⊢
      rw [hd hctx]
      exact (and_iff_left fun h => absurd h hdc).symm
  refine ⟨?_, fun d => ?_, fun d => ?_, fun d => ?_, fun d => ?_, fun d w hmem => ?_,
    fun d => hevents d _ dropsRead rfl (hk.read d), fun d => hevents d _ dropsWrite rfl (hk.write d),
    fun d => ?_, fun d => ?_, fun d => ?_⟩
  · rw [hnconn, hconnects, hk.nconn]
  · rw [hconn, hconnects]
    by_cases hd : d = c
    · subst hd
      simpa [SConnect.told] using hk.made d
    · simpa [hd] using hk.made d
  · rw [hconn]
    by_cases hd : d = c
    · subst hd
      simpa [SConnect.told] using hk.buffer d
    · simpa [hd] using hk.buffer d
  · rw [hconn, hhistory, linkStatus_concat]
    by_cases hd : d = c
    · subst hd
      rw [Function.update_self, hk.status]
    · simpa [LinkEvent.status, hd, Ne.symm hd] using hk.status d
  · rw [hconn]
    by_cases hd : d = c
    · subst hd
      simpa [SConnect.told] using fun _ => hc
    · simpa [hd] using hk.ctx d
  · rw [hhistory] at hmem
    rw [hnconn]
    rcases List.mem_append.mp hmem with hmem | hmem
    · exact hk.old d w hmem
    · cases List.mem_singleton.mp hmem
      exact hlt
  · rw [hrefused, hconnects]
    exact hk.refused d
  · rw [created_iff hcalls hcs rfl, hconnects]
    exact hk.evbuffer d
  · rw [created_iff hcalls hcs rfl, hconnects]
    exact hk.outbound d

/-- An event of a link. -/
theorem event (hk : Books k) {what : BitVec 16} (hc : (k.conn c).ctx = true)
    (hr : Reported k c what t) : Books t := by
  cases hr with
  | finish hf hnew =>
    refine hk.setStatus hc rfl rfl ?_ rfl (List.append_nil _).symm (List.forall_mem_nil _)
    simp [LinkEvent.status, hf]
  | disConnect cs hf hh hcs =>
    refine hk.setStatus hc rfl rfl ?_ rfl rfl fun x hx => ?_
    · simp [LinkEvent.status, hf, hh]
    · rw [hcs x hx]
      rfl
  | nothing hf hh =>
    refine hk.setStatus hc rfl rfl ?_ rfl (List.append_nil _).symm (List.forall_mem_nil _)
    simp [LinkEvent.status, hf, hh, SConnect.told]

/-- A turn. -/
theorem turns {e : KEvent α} {ops : List (KOp α)} (hk : Books k) (hl : Linked k)
    (hbase : k.base = true) (hst : Turns k e t ops) : Books t := by
  cases hst with
  | server _ hcs =>
    refine hk.congr rfl rfl rfl rfl rfl fun x hx => ?_
    obtain ⟨b, rfl⟩ := hcs x hx
    rfl
  | connect o => exact hk.connect hl hbase o
  | input =>
    refine hk.congr rfl rfl rfl rfl rfl fun x hx => ?_
    rw [List.mem_singleton.mp hx]
    rfl
  | event hc hr => exact hk.event hc hr

theorem start (N : ℕ) (pthPool : Bool) (o : Option ConnectResults) :
    Books (SyinxKernel.start N pthPool o : SyinxKernel α) := by
  have hnew : Books (SyinxKernel.new N pthPool : SyinxKernel α) := by
    refine ⟨rfl, fun c => ?_, fun c => rfl, fun c => rfl, fun c hc => absurd rfl hc,
      fun c what hmem => ?_, fun c hc => ?_, fun c hc => ?_, fun c => ?_, fun c => ?_, fun c => ?_⟩
    · simp [SyinxKernel.new, SConnect.new, connects]
    · cases hmem
    · cases hc
    · cases hc
    · simp [SyinxKernel.new, connects]
    · simp [SyinxKernel.new, connects]
    · simp [SyinxKernel.new, connects]
  have hcall : ∀ o : Obj, (Call.create o).forLink = false →
      ∀ x ∈ [Call.create o], x.forLink = false := by
    intro o ho x hx
    rw [List.mem_singleton.mp hx]
    exact ho
  cases o with
  | none => exact hnew.congr rfl rfl rfl rfl rfl (hcall .evhttp rfl)
  | some o =>
    have hbase : Books (({ SyinxKernel.new N pthPool with mode := .tcp, base := true } :
        SyinxKernel α).call [.create .listener]) :=
      hnew.congr rfl rfl rfl rfl rfl (hcall .listener rfl)
    exact hbase.connect (.listening N pthPool) rfl o

end Books

/-! ### The links at any point of a run -/

/-- What is known of the links, and of what has been freed. -/
structure Audited (k : SyinxKernel α) : Prop where
  books : Books k
  /-- Those in the list are connected. -/
  listed : ∀ c ∈ k.allConnect, (k.conn c).status = .clientLogin
  /-- Nothing of a link has been freed. -/
  kept : ∀ c, ∀ x ∈ [Obj.evbuffer c, .outbound c], .free x ∉ k.calls

/-- A link in the list is connected. -/
theorem Linked.login (hl : Linked k) (hc : c ∈ k.allConnect) : (k.conn c).status = .clientLogin := by
  by_contra hs
  exact List.count_eq_zero.mp (hl.not_listed hs) hc

/-- A link in the list has its `bufferevent`. -/
theorem Books.buffer_of_mem (hk : Books k) (hl : Linked k) (hc : c ∈ k.allConnect) :
    (k.conn c).buffer = true := by
  rw [hk.buffer]
  exact hk.ctx c (by rw [hl.login hc]; decide)

namespace Audited

theorem of_kept (hk : Books k) (hl : Linked k) (hkept : Kept k) : Audited k := by
  refine ⟨hk, fun c hc => hl.login hc, fun c x hx hmem => ?_⟩
  obtain rfl | rfl := List.mem_pair.mp hx <;> exact Call.not_mem hkept rfl hmem

/-- `Close` frees nothing of a link: for the first one in the list `bufferevent_free` does not
return. -/
theorem of_closes (hk : Books k) (hl : Linked k) (hkept : Kept k) (hc : Closes k t) : Audited t := by
  obtain ⟨cs, hcalls, hcs⟩ := hc.later
  refine ⟨?_, fun c hmem => ?_, fun c x hx => ?_⟩
  · refine hk.congr hc.nconn hc.refused hc.conn hc.history hcalls fun x hx => ?_
    obtain hclient | rfl | hlate := hcs x hx
    · exact Call.forLink_of_ofClient hclient
    · rfl
    · obtain rfl | ⟨c, -, rfl | ⟨rfl, -⟩⟩ := mem_lateCalls hlate <;> rfl
  · rw [hc.conn]
    exact hl.login (hc.allConnect hmem)
  · rw [hcalls]
    intro hmem
    have hnot : ∀ y ∈ [Call.free (.evbuffer c), .free (.outbound c)], y ∉ k.calls ++ cs := by
      intro y hy hmem
      have hturn : y.ofTurn = false := by obtain rfl | rfl := List.mem_pair.mp hy <;> rfl
      obtain hmem | hmem := List.mem_append.mp hmem
      · exact Call.not_mem hkept hturn hmem
      obtain hclient | rfl | hlate := hcs y hmem
      · rw [Call.ofTurn_of_ofClient hclient] at hturn
        cases hturn
      · simp at hy
      · obtain rfl | ⟨d, hd, rfl | ⟨-, hb⟩⟩ := mem_lateCalls hlate
        · simp at hy
        · simp at hy
        · rw [hk.buffer_of_mem hl hd] at hb
          cases hb
    obtain rfl | rfl := List.mem_pair.mp hx
    · exact hnot _ List.mem_cons_self hmem
    · exact hnot _ (by simp) hmem

/-- What has been created belongs to a link that got its `evbuffer`. -/
theorem of_created (hk : Audited k) {x : Obj} (hx : x ∈ [Obj.evbuffer c, .outbound c])
    (hcreated : .create x ∈ k.calls) :
    ∃ o, (connects k.history)[c]? = some o ∧ o.evbufferNew = true := by
  obtain rfl | rfl := List.mem_pair.mp hx
  · exact (hk.books.evbuffer c).mp hcreated
  · obtain ⟨o, ho, hnew⟩ := (hk.books.outbound c).mp hcreated
    rw [Bool.and_eq_true] at hnew
    exact ⟨o, ho, hnew.1⟩

/-- **A link has been freed** only if nothing has been created for it. -/
theorem freedOnce_iff (hk : Audited k) (c : ℕ) :
    k.FreedOnce c ↔ ∀ o, (connects k.history)[c]? = some o → o.evbufferNew = false := by
  constructor
  · intro hfreed o ho
    by_contra hnew
    rw [Bool.not_eq_false] at hnew
    have hcount := hfreed (.evbuffer c) List.mem_cons_self ((hk.books.evbuffer c).mpr ⟨o, ho, hnew⟩)
    rw [List.count_eq_zero.mpr (hk.kept c _ List.mem_cons_self)] at hcount
    cases hcount
  · intro hnone x hx hcreated
    obtain ⟨o, ho, hnew⟩ := hk.of_created hx hcreated
    rw [hnone o ho] at hnew
    cases hnew

/-- **The links that `Connect` gives up** are freed if it has created nothing. -/
theorem refusedFreed_iff (hk : Audited k) : k.RefusedFreed ↔ AllSucceed k.history := by
  constructor
  · intro hfreed c o ho hnew
    by_contra hok
    rw [Bool.not_eq_true] at hok
    have hc := hfreed c ((hk.books.refused c).mpr ⟨o, ho, hok⟩)
    rw [(hk.freedOnce_iff c).mp hc o ho] at hnew
    cases hnew
  · intro hs c hc
    obtain ⟨o, ho, hok⟩ := (hk.books.refused c).mp hc
    refine (hk.freedOnce_iff c).mpr fun o' ho' => ?_
    obtain rfl : o = o' := Option.some.inj (ho.symm.trans ho')
    by_contra hnew
    rw [hs c o ho (Bool.eq_true_of_not_eq_false hnew)] at hok
    cases hok

/-- A link of which something has been reported has its `evbuffer`. -/
theorem not_freedOnce (hk : Audited k) (hs : (k.conn c).status ≠ .initial) : ¬ k.FreedOnce c := by
  intro hfreed
  obtain ⟨o, ho, hok⟩ := (hk.books.made c).mp (hk.books.ctx c hs)
  rw [ConnectResults.ok, (hk.freedOnce_iff c).mp hfreed o ho] at hok
  cases hok

/-- **The links that `DisConnect` removes** are held if they are watched, and there is a base. -/
theorem removedHeld_iff (hk : Audited k) :
    k.RemovedHeld ↔ RemovedWatched k.history ∧ (k.baseFreed = true → NoneRemoved k.history) := by
  have hwatches : ∀ c, (k.conn c).status ≠ .initial →
      (k.Watches c ↔ k.baseFreed = false ∧ Watched k.history c) := by
    intro c hs
    have hctx := hk.books.ctx c hs
    rw [SyinxKernel.Watches, hk.books.read c hctx, hk.books.write c hctx]
    exact Iff.rfl
  have hheld : k.RemovedHeld ↔ ∀ c, linkStatus k.history c = .clientLogout →
      k.baseFreed = false ∧ Watched k.history c := by
    refine forall_congr' fun c => ?_
    rw [hk.books.status]
    refine imp_congr_right fun hs => ?_
    have hne : (k.conn c).status ≠ .initial := by rw [hk.books.status, hs]; decide
    have hlist : c ∉ k.allConnect := by
      intro hc
      have hlogin := hk.listed c hc
      rw [hk.books.status, hs] at hlogin
      cases hlogin
    rw [or_iff_right hlist, hwatches c hne, or_iff_left (hk.not_freedOnce hne)]
  rw [hheld]
  constructor
  · refine fun h => ⟨fun c hs => (h c hs).2, fun hb c hs => ?_⟩
    rw [(h c hs).1] at hb
    cases hb
  · rintro ⟨hwatched, hnone⟩ c hs
    refine ⟨?_, hwatched c hs⟩
    by_contra hb
    exact hnone (Bool.eq_true_of_not_eq_false hb) c hs

end Audited

section Run

variable [Inhabited α] {P : ParseFunc α} {N : ℕ} {pthPool : Bool} {r : Option ConnectResults}
  {as : List (Interrupt.Act (KEvent α))} {p : Process α}

/-! ### What has happened is what the actions say -/

omit [Inhabited α] in
theorem SyinxKernel.history_connect (k : SyinxKernel α) (o : ConnectResults) :
    (k.connect o).history = k.history ++ [.connect o] := by
  simp only [connect]
  split_ifs <;> rfl

omit [Inhabited α] in
theorem Turns.history_eq {e : KEvent α} {ops : List (KOp α)} (hst : Turns k e t ops) :
    t.history = k.history ++ (linkEvent (.turn e)).toList := by
  cases hst with
  | server => exact (List.append_nil _).symm
  | connect o => exact k.history_connect o
  | input => exact (List.append_nil _).symm
  | event _ hr => cases hr <;> rfl

theorem SyinxKernel.history_run {b : KOp α} {cs : List (KOp α)} (hst : k.run P b = some (t, cs)) :
    t.history = k.history := by
  by_cases hb : b = .exit
  · subst hb
    cases hst
    rfl
  · exact (run_frame hb hst).1.history

theorem history_step {q : Process α} {a : Interrupt.Act (KEvent α)} (hst : p.step P a = some q) :
    q.st.history = p.st.history ++ (linkEvent a).toList := by
  obtain ⟨e, ops, rfl, ht⟩ | ⟨hturn, hst⟩ := Interrupt.Proc.st_step hst
  · exact (SyinxKernel.turns_of_turn ht).history_eq
  · have hnone : linkEvent a = none := by
      cases a with
      | turn e => exact absurd rfl (hturn e)
      | signal | run => rfl
    rw [hnone, Option.toList_none, List.append_nil]
    obtain hst | ⟨b, cs, hst⟩ := hst
    · rw [hst]
    · exact SyinxKernel.history_run hst

theorem history_of_exec (hrun : exec (Process.step P) (.start N pthPool r) as = some p) :
    p.st.history = linkEvents r as := by
  have hlog := log_of_exec (fun q : Process α => q.st.history) (fun _ _ _ hst => history_step hst)
    hrun
  refine hlog.trans ?_
  cases r with
  | none => rfl
  | some o => exact congrArg (· ++ as.filterMap linkEvent) (SyinxKernel.history_connect _ o)

/-! ### Once Close has begun -/

theorem SyinxKernel.prefix_calls_run {b : KOp α} {cs : List (KOp α)}
    (hst : k.run P b = some (t, cs)) : k.calls <+: t.calls := by
  have hruns : Runs k b t cs → k.calls <+: t.calls := by
    intro hr
    cases hr with
    | srv | loop => exact List.prefix_append ..
  cases b with
  | srv op => exact hruns (runs_of_srv hst)
  | parse | write => exact hruns (runs_of_loop rfl hst)
  | freeOutbound c =>
    rw [run, freeOutbound, Option.some.injEq] at hst
    split_ifs at hst <;> cases hst <;> simp [call]
  | freeEvbuffer c =>
    cases hst
    split_ifs <;> simp [call]
  | poolReturn =>
    simp only [run] at hst
    split_ifs at hst
    cases hst
    exact List.prefix_rfl
  | crash => cases hst
  | freeBase | freeEvHttp => cases hst; exact List.prefix_append ..
  | _ => cases hst; exact List.prefix_rfl

/-- Nothing happens to the links any more, and what has been called has been called. -/
theorem closed_of_exec {q : Process α} (hclosed : p.closed = true)
    (hrun : exec (Process.step P) p as = some q) :
    q.st.history = p.st.history ∧ p.st.calls <+: q.st.calls := by
  have hinv : q.closed = true ∧ q.st.history = p.st.history ∧ p.st.calls <+: q.st.calls := by
    refine inv_of_exec (I := fun u : Process α => u.closed = true ∧ u.st.history = p.st.history ∧
      p.st.calls <+: u.st.calls) ?_ ⟨hclosed, rfl, List.prefix_rfl⟩ hrun
    rintro u a v ⟨hu, hhist, hcalls⟩ hst
    obtain ⟨hv, hturn⟩ := Interrupt.Proc.closed_step hu hst
    obtain ⟨e, _, rfl, -⟩ | ⟨-, hst⟩ := Interrupt.Proc.st_step hst
    · exact absurd rfl (hturn e)
    obtain hst | ⟨b, cs, hst⟩ := hst
    · rw [hst]
      exact ⟨hv, hhist, hcalls⟩
    · exact ⟨hv, (SyinxKernel.history_run hst).trans hhist,
        hcalls.trans (SyinxKernel.prefix_calls_run hst)⟩
  exact hinv.2

/-! ### The ledger over a run -/

/-- At any point of a run; if the base has been freed, `Close` has begun. -/
theorem audited_of_exec (hrun : exec (Process.step P) (.start N pthPool r) as = some p) :
    Audited p.st ∧ (p.st.baseFreed = true → p.closed = true) := by
  have hcalls := calls_of_exec (I := fun k => Linked k ∧ Books k)
    ⟨.start N pthPool r, .start N pthPool r⟩
    (fun k e t ops hk hI ht => ⟨hI.1.turns hk.base ht, hI.2.turns hI.1 hk.base ht⟩)
    (fun k s cs hcs hI => ⟨hI.1.congr (.srv k s cs),
      hI.2.congr rfl rfl rfl rfl rfl fun x hx => Call.forLink_of_ofClient (hcs x hx)⟩) hrun
  obtain ⟨-, ⟨hl, hbooks⟩, hkept⟩ | ⟨hclosed, k, ops, -, ⟨hl, hbooks⟩, hkept, hcloses⟩ := hcalls
  · refine ⟨.of_kept hbooks hl hkept, fun hb => ?_⟩
    exact absurd (of_decide_eq_true hb) (Call.not_mem hkept rfl)
  · exact ⟨.of_closes hbooks hl hkept hcloses, fun _ => hclosed⟩

/-- **The ledger of the links**: in a run, a link that `Connect` gives up is freed before it returns,
one that `DisConnect` removes is held or has been freed, and when `Close` has come as far as it
comes everything has been freed once, exactly if no `Connect` fails once it has its `evbuffer`,
no link is removed that libevent does not watch any more, none is removed when the base has
been freed, and no `Connect` has got its `evbuffer` when `Close` has come as far as it comes. -/
theorem ledger_iff (P : ParseFunc α) (N : ℕ) (pthPool : Bool) (r : Option ConnectResults)
    (as : List (Interrupt.Act (KEvent α))) (p : Process α)
    (hrun : exec (Process.step P) (.start N pthPool r) as = some p) :
    (Along (Process.step P) (fun q => q.st.RefusedFreed ∧ q.st.RemovedHeld) (.start N pthPool r) as ∧
        (p.st.Finished → ∀ c, p.st.FreedOnce c)) ↔
      AllSucceed (linkEvents r as) ∧ (∀ bs, bs <+: as → RemovedWatched (linkEvents r bs)) ∧
        (p.st.baseFreed = true → NoneRemoved (linkEvents r as)) ∧
        (p.st.Finished → NoneMade (linkEvents r as)) := by
  obtain ⟨haudit, -⟩ := audited_of_exec hrun
  have hfreed : (∀ c, p.st.FreedOnce c) ↔ NoneMade (linkEvents r as) := by
    rw [← history_of_exec hrun]
    exact forall_congr' haudit.freedOnce_iff
  rw [hfreed]
  constructor
  · rintro ⟨halong, hnone⟩
    have hlast := halong.last hrun
    rw [haudit.refusedFreed_iff, haudit.removedHeld_iff, history_of_exec hrun] at hlast
    refine ⟨hlast.1, fun bs hbs => ?_, hlast.2.2, hnone⟩
    obtain ⟨cs, rfl⟩ := hbs
    obtain ⟨q, hq, -⟩ := exec_append_eq_some.mp hrun
    have hheld := (halong.left.last hq).2
    rw [(audited_of_exec hq).1.removedHeld_iff, history_of_exec hq] at hheld
    exact hheld.1
  · rintro ⟨hs, hwatched, hremoved, hnone⟩
    refine ⟨.of_append fun bs cs q has hq => ?_, hnone⟩
    obtain ⟨haudit', hclosed⟩ := audited_of_exec hq
    rw [haudit'.refusedFreed_iff, haudit'.removedHeld_iff, history_of_exec hq]
    refine ⟨?_, hwatched bs ⟨cs, has.symm⟩, fun hb => ?_⟩
    · rw [has, linkEvents, List.filterMap_append, ← List.append_assoc] at hs
      exact hs.left
    · -- nothing happens to the links from there on
      obtain ⟨q', hq', hrest⟩ := exec_append_eq_some.mp (has ▸ hrun)
      obtain rfl : q = q' := Option.some.inj (hq.symm.trans hq')
      obtain ⟨hhist, hcalls⟩ := closed_of_exec (hclosed hb) hrest
      rw [history_of_exec hrun, history_of_exec hq] at hhist
      rw [← hhist]
      exact hremoved (decide_eq_true (hcalls.subset (of_decide_eq_true hb)))

end Run

/-- The link of `TCPServer` is connected. -/
def connected : List (Interrupt.Act (KEvent UInt8)) := [.turn (.event 0 bevEventConnected), .run]

/-- The same, and a signal comes. -/
def connectedAndClosed : List (Interrupt.Act (KEvent UInt8)) := connected ++ closedBySignal 20

/-- While the server works the ledger is right; `Close` comes to the link, and no further. -/
theorem ledger_connectedAndClosed :
    Along (Process.step recvValuesFromString) (fun q => q.st.RefusedFreed ∧ q.st.RemovedHeld)
        (.start 1 true (some connectOk)) connected ∧
      ∃ p, exec (Process.step recvValuesFromString) (.start 1 true (some connectOk))
          connectedAndClosed = some p ∧ p.st.crashed = true ∧
        p.step recvValuesFromString .run = none ∧
        ¬ (Along (Process.step recvValuesFromString) (fun q => q.st.RefusedFreed ∧ q.st.RemovedHeld)
            (.start 1 true (some connectOk)) connectedAndClosed ∧
          (p.st.Finished → ∀ c, p.st.FreedOnce c)) := by
  have hledger := ledger_iff recvValuesFromString 1 true (some connectOk) connected _ rfl
  refine ⟨(hledger.mpr ⟨fun c o ho _ => ?_, fun bs hbs c hs => ?_, fun hb => ?_, fun hf => ?_⟩).1,
    _, rfl, rfl, rfl, fun hgood => ?_⟩
  · cases c with
    | zero => cases ho; rfl
    | succ c => cases ho
  · -- no link is ever removed
    have hstatus : linkStatus (linkEvents (some connectOk) bs) c = .initial ∨
        linkStatus (linkEvents (some connectOk) bs) c = if 0 = c then .clientLogin else .initial := by
      obtain rfl | rfl | rfl :
          bs = [] ∨ bs = [.turn (.event 0 bevEventConnected)] ∨ bs = connected := by
        simpa [connected] using (List.mem_inits bs connected).mpr hbs
      · exact .inl rfl
      · exact .inr rfl
      · exact .inr rfl
    rw [hs] at hstatus
    split_ifs at hstatus <;> cases hstatus <;> contradiction
  · cases hb
  · rcases hf with hf | hf <;> cases hf
  · have hnone := ((ledger_iff recvValuesFromString 1 true (some connectOk) connectedAndClosed _
      rfl).mp hgood).2.2.2 (.inr rfl)
    cases hnone 0 connectOk rfl

/-- `bufferevent_socket_connect` fails, and the program ends: what the link had is not freed. -/
theorem not_freedOnce_refused :
    ∃ p, exec (Process.step recvValuesFromString) (.start 1 true (some ⟨true, true, false⟩))
        (closedBySignal 25) = some p ∧ p.ended = true ∧ p.st.refused = [0] ∧
      p.st.calls = [.create .listener, .create (.evbuffer 0), .create (.outbound 0),
        .use (.outbound 0), .baseFree] ∧ ¬ p.st.FreedOnce 0 := by
  have hnot : ∀ k : SyinxKernel UInt8, k.calls = [.create .listener, .create (.evbuffer 0),
      .create (.outbound 0), .use (.outbound 0), .baseFree] → ¬ k.FreedOnce 0 := by
    intro k hcalls hfreed
    have hcount := hfreed (.evbuffer 0) List.mem_cons_self (by rw [hcalls]; decide)
    rw [hcalls] at hcount
    exact absurd hcount (by decide)
  exact ⟨_, rfl, rfl, rfl, rfl, hnot _ rfl⟩

end Syinx.Kernel
