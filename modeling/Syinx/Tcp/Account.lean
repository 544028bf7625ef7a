import Syinx.Tcp.ChannelPool

/-!
# What has been freed, and what there is to free

`SyinxAdapterResource::Close` can come between any two operations of a callback, when a
signal arrives there. It frees what the channels in the containers have: so what it may do
at such a point depends on which channels are in the containers, which `m_buffer` each of
them has, and what has been freed already. That is the account of a state; what an
operation does to the account is decided by the account (`Op.book`).

## What is proved

* `account_run` — an operation does to the account what `Op.book` says.
* `Owed.along_turn` — at every point of a callback or a frame, what has been freed and what the
  channels in the containers have come to at most one of each.
* `Owed.along_resourceClose` — from such a point on `SyinxAdapterResource::Close` frees nothing
  twice.
-/

namespace Syinx.Tcp

open Syinx.Library

variable {α : Type}

/-- What matters to `SyinxAdapterResource::Close`. -/
structure Account where
  /-- `m_queueILoop`. -/
  queue : List Ptr
  /-- `m_listConnectClient`. -/
  list : List Ptr
  /-- `m_buffer` of each channel. -/
  buffer : Ptr → Option BevId
  /-- How many times each `bufferevent` has been freed. -/
  freed : BevId → ℕ
  /-- How many times each `m_Inputevbuffer` has been freed. -/
  evFreed : Ptr → ℕ
  /-- How many times each channel has been deleted. -/
  deleted : Ptr → ℕ

namespace Account

/-- The channels in the containers. -/
def held (a : Account) : List Ptr := a.queue ++ a.list

/-- `bufferevent_free`. -/
def free (a : Account) (b : BevId) : Account :=
  { a with freed := Function.update a.freed b (a.freed b + 1) }

/-- `bufferevent_free` of `m_buffer`, if it is not null. -/
def freeBuffer (a : Account) (c : Ptr) : Account :=
  match a.buffer c with
  | none => a
  | some b => a.free b

/-- `m_buffer` of `c` changes. -/
def setBuffer (a : Account) (c : Ptr) (x : Option BevId) : Account :=
  { a with buffer := Function.update a.buffer c x }

/-- `c` leaves the list. -/
def remove (a : Account) (c : Ptr) : Account := { a with list := a.list.filter (· ≠ c) }

end Account

/-- The account of a state. -/
def Server.account (s : Server α) : Account where
  queue := s.queueILoop
  list := s.listConnectClient
  buffer := fun c => (s.chan c).buffer
  freed := fun b => (s.bev b).freed
  evFreed := s.evFreed
  deleted := s.deleted

/-- What an operation does to an account. -/
def Op.book (a : Account) : Op α → Account
  | .queuePop => { a with queue := a.queue.tail }
  | .queuePush c => { a with queue := a.queue ++ [c] }
  | .listPush c => { a with list := a.list ++ [c] }
  | .listRemove c => a.remove c
  | .freeBev b => a.free b
  | .setBuffer c b => a.setBuffer c b
  | .freeBuffer c => a.freeBuffer c
  | .evbufferFree c => { a with evFreed := Function.update a.evFreed c (a.evFreed c + 1) }
  | .delete c => { a with deleted := Function.update a.deleted c (a.deleted c + 1) }
  | _ => a

/-- A step of the account. -/
def bookStep (a : Account) (op : Op α) : Option Account := some (op.book a)

theorem Server.account_setChan (s : Server α) (c : Ptr) (ch : IChannel α) :
    (s.setChan c ch).account = s.account.setBuffer c ch.buffer := by
  simp only [account, setChan, Account.setBuffer, Account.mk.injEq, true_and, and_true]
  funext d
  by_cases hd : d = c
  · subst hd; simp
  · simp [hd]

theorem Server.account_bev (s : Server α) (b : BevId) (e : Bufferevent) :
    ({ s with bev := Function.update s.bev b e } : Server α).account =
      { s.account with freed := Function.update s.account.freed b e.freed } := by
  simp only [account, Account.mk.injEq, true_and, and_true]
  funext d
  by_cases hd : d = b
  · subst hd; simp
  · simp [hd]

/-- **What an operation does to the account.** -/
theorem account_run [Inhabited α] {P : ParseFunc α} {s t : Server α} {op : Op α}
    (h : Op.run P s op = some t) : t.account = op.book s.account := by
  have hsame : ∀ c (ch : IChannel α), ch.buffer = (s.chan c).buffer →
      (s.setChan c ch).account = s.account := by
    intro c ch hch
    rw [s.account_setChan, hch]
    exact congrArg (fun f => { s.account with buffer := f }) (Function.update_eq_self c _)
  cases op with
  | setSocket c fd => cases h; exact hsame c _ rfl
  | setStatus c st => cases h; exact hsame c _ rfl
  | setBuffer c b => cases h; exact s.account_setChan c _
  | readBuffer c b data => cases h; exact hsame c _ rfl
  | setcb b c | enable b =>
    cases h
    rw [s.account_bev]
    exact congrArg (fun f => { s.account with freed := f }) (Function.update_eq_self b _)
  | freeBev b => cases h; exact s.account_bev b _
  | freeBuffer c =>
    rw [Op.run] at h
    have hc : s.account.buffer c = (s.chan c).buffer := rfl
    cases hb : (s.chan c).buffer with
    | none => rw [hb] at h hc; cases h; rw [Op.book, Account.freeBuffer, hc]
    | some b => rw [hb] at h hc; cases h; rw [Op.book, Account.freeBuffer, hc]; exact s.account_bev b _
  | onStatusDoAction c =>
    obtain ⟨⟨ch, packs⟩, hr, rfl⟩ := Option.map_eq_some_iff.mp h
    rw [IChannel.onStatusDoAction_eq_some hr]
    exact hsame c _ rfl
  | _ => cases h; rfl

/-! ### What is owed -/

/-- What has been freed, and what freeing the channels `cs` would free. -/
structure Account.Budget (a : Account) (cs : List Ptr) : Prop where
  freed : ∀ b, a.freed b + cs.countP (fun c => a.buffer c = some b) ≤ 1
  evFreed : ∀ c, a.evFreed c + cs.count c ≤ 1
  deleted : ∀ c, a.deleted c + cs.count c ≤ 1

/-- Nothing has been freed twice. -/
structure Account.Single (a : Account) : Prop where
  freed : ∀ b, a.freed b ≤ 1
  evFreed : ∀ c, a.evFreed c ≤ 1
  deleted : ∀ c, a.deleted c ≤ 1

/-- No channel is gone, and what the channels in the containers have has not been freed. -/
structure Account.Owed (a : Account) : Prop where
  nodup : a.held.Nodup
  freed : ∀ b, a.freed b + a.held.countP (fun c => a.buffer c = some b) ≤ 1
  evFreed : ∀ c, a.evFreed c = 0
  deleted : ∀ c, a.deleted c = 0

namespace Account

variable {a a' : Account} {c : Ptr} {cs : List Ptr}

theorem Budget.single (h : a.Budget cs) : a.Single where
  freed b := (Nat.le_add_right _ _).trans (h.freed b)
  evFreed c := (Nat.le_add_right _ _).trans (h.evFreed c)
  deleted c := (Nat.le_add_right _ _).trans (h.deleted c)

theorem Owed.budget (h : a.Owed) : a.Budget a.held where
  freed := h.freed
  evFreed c := by rw [h.evFreed, Nat.zero_add]; exact List.nodup_iff_count_le_one.mp h.nodup c
  deleted c := by rw [h.deleted, Nat.zero_add]; exact List.nodup_iff_count_le_one.mp h.nodup c

theorem Owed.single (h : a.Owed) : a.Single := h.budget.single

/-- Channels leave the containers. -/
theorem Owed.sublist (h : a.Owed) (hs : a'.held.Sublist a.held) (hb : a'.buffer = a.buffer)
    (hf : ∀ b, a'.freed b ≤ a.freed b) (he : a'.evFreed = a.evFreed) (hd : a'.deleted = a.deleted) :
    a'.Owed where
  nodup := h.nodup.sublist hs
  freed b := by rw [hb]; exact (Nat.add_le_add (hf b) (hs.countP_le)).trans (h.freed b)
  evFreed c := by rw [he]; exact h.evFreed c
  deleted c := by rw [hd]; exact h.deleted c

/-- A channel comes to the containers. -/
theorem Owed.push (h : a.Owed) (hp : a'.held.Perm (c :: a.held)) (hc : c ∉ a.held)
    (hbuf : ∀ b, a.buffer c = some b → a.freed b + a.held.countP (fun d => a.buffer d = some b) = 0)
    (hb : a'.buffer = a.buffer) (hf : a'.freed = a.freed) (he : a'.evFreed = a.evFreed)
    (hd : a'.deleted = a.deleted) : a'.Owed where
  nodup := hp.nodup_iff.mpr (List.nodup_cons.mpr ⟨hc, h.nodup⟩)
  freed b := by
    rw [hp.countP_eq, List.countP_cons, hb, hf]
    split_ifs with hcb
    · rw [← Nat.add_assoc, hbuf b (of_decide_eq_true hcb)]
    · exact h.freed b
  evFreed c := by rw [he]; exact h.evFreed c
  deleted c := by rw [hd]; exact h.deleted c

/-- The `m_buffer` of a channel outside the containers changes. -/
theorem Owed.setBuffer (h : a.Owed) (hc : c ∉ a.held) (x : Option BevId) :
    (a.setBuffer c x).Owed where
  nodup := h.nodup
  freed b := by
    have hcount : a.held.countP (fun d => Function.update a.buffer c x d = some b) =
        a.held.countP fun d => a.buffer d = some b := by
      apply List.countP_congr
      intro d hd
      have hne : d ≠ c := by
        rintro rfl
        exact hc hd
      simp [hne]
    exact hcount ▸ h.freed b
  evFreed := h.evFreed
  deleted := h.deleted

/-- Something is freed that is none of theirs. -/
theorem Owed.free (h : a.Owed) {b : BevId}
    (hb : a.freed b + a.held.countP (fun d => a.buffer d = some b) = 0) : (a.free b).Owed where
  nodup := h.nodup
  freed e := by
    by_cases heb : e = b
    · subst heb
      show Function.update a.freed e _ e + a.held.countP (fun d => a.buffer d = some e) ≤ 1
      rw [Function.update_self]
      omega
    · show Function.update a.freed b _ e + a.held.countP _ ≤ 1
      rw [Function.update_of_ne heb]
      exact h.freed e
  evFreed := h.evFreed
  deleted := h.deleted

end Account

/-! ### The functions of the source -/

/-- A run of the account is a run, whatever it is. -/
theorem along_cons {Q : Account → Prop} {a : Account} {op : Op α} {ops : List (Op α)} (ha : Q a)
    (h : Along bookStep Q (op.book a) ops) : Along bookStep Q a (op :: ops) := by
  refine ⟨ha, fun t ht => ?_⟩
  cases ht
  exact h

namespace Account.Owed

variable {s t : Server α} {N : ℕ} {c : Ptr} {ops : List (Op α)}

/-- `SocketFdDel` of a connected channel: it is taken out of the list, cleared and put back
into the queue. -/
theorem along_socketFdDel {a : Account} (h : a.Owed) (hc : c ∈ a.list) {b : BevId}
    (hb : a.buffer c = some b) :
    Along bookStep Account.Owed a (socketFdDel c : List (Op α)) := by
  have hnd := List.nodup_append.mp h.nodup
  have hq : c ∉ a.queue := fun hq => hnd.2.2 c hq c hc rfl
  have herase : a.list.filter (· ≠ c) = a.list.erase c := by
    rw [hnd.2.1.erase_eq_filter]
    exact List.filter_congr fun d _ => Bool.eq_iff_iff.mpr (by simp)
  have hperm : a.held.Perm (c :: (a.remove c).held) := by
    show (a.queue ++ a.list).Perm (c :: (a.queue ++ a.list.filter (· ≠ c)))
    rw [herase]
    exact ((List.perm_cons_erase hc).append_left a.queue).trans List.perm_middle
  -- out of the list
  have h1 : (a.remove c).Owed :=
    h.sublist (List.filter_sublist.append_left _) rfl (fun _ => le_rfl) rfl rfl
  have hc1 : c ∉ (a.remove c).held := by simp [held, remove, hq]
  -- `m_buffer` is freed
  have hfree : (a.remove c).freeBuffer c = (a.remove c).free b := by
    rw [freeBuffer, show (a.remove c).buffer c = some b from hb]
  have h2 : ((a.remove c).freeBuffer c).Owed := by
    rw [hfree]
    apply h1.free
    have hfreed := h.freed b
    rw [hperm.countP_eq, List.countP_cons, if_pos (decide_eq_true hb)] at hfreed
    show a.freed b + (a.remove c).held.countP (fun d => a.buffer d = some b) = 0
    omega
  have hheld : ((a.remove c).freeBuffer c).held = (a.remove c).held := by rw [hfree]; rfl
  have h3 : (((a.remove c).freeBuffer c).setBuffer c none).Owed := h2.setBuffer (hheld ▸ hc1) none
  -- it comes back without one
  have h4 : (Op.book (((a.remove c).freeBuffer c).setBuffer c none) (.queuePush c : Op α)).Owed := by
    refine h3.push (c := c) ?_ (hheld ▸ hc1) (fun e he => ?_) rfl rfl rfl rfl
    · show ((_ ++ [c]) ++ _ : List Ptr).Perm _
      rw [List.append_assoc]
      exact List.perm_middle
    · rw [show (((a.remove c).freeBuffer c).setBuffer c none).buffer c = none from
        Function.update_self ..] at he
      cases he
  exact along_cons h (along_cons h1 (along_cons h1 (along_cons h1 (along_cons h1
    (along_cons h2 (along_cons h3 (along_cons h3 h4)))))))

/-- `AllocationIChannel` with an idle channel, of a `bufferevent` that is new. -/
theorem along_accept {a : Account} (h : a.Owed) {q : List Ptr} (hq : a.queue = c :: q) (fd : ℤ)
    {b : BevId} (hb : a.freed b = 0) (hnew : ∀ d ∈ a.held, a.buffer d ≠ some b) :
    Along bookStep Account.Owed a
      ([.queuePop, .setcb b c, .setwatermark b, .enable b] ++ onClientConnect c fd b ++ socketFdAdd c : List (Op α)) := by
  have hheld : a.held = c :: (q ++ a.list) := by rw [held, hq]; rfl
  have hnd := h.nodup
  rw [hheld, List.nodup_cons] at hnd
  -- off the queue
  have h1 : ({ a with queue := a.queue.tail } : Account).Owed :=
    h.sublist ((List.tail_sublist _).append_right _) rfl (fun _ => le_rfl) rfl rfl
  have hheld1 : ({ a with queue := a.queue.tail } : Account).held = q ++ a.list := by
    rw [held, hq]; rfl
  have hc1 : c ∉ ({ a with queue := a.queue.tail } : Account).held := by rw [hheld1]; exact hnd.1
  have h2 := h1.setBuffer hc1 (some b)
  -- to the end of the list, with `b`
  have h3 : (Op.book (({ a with queue := a.queue.tail } : Account).setBuffer c (some b))
      (.listPush c : Op α)).Owed := by
    refine h2.push (c := c) ?_ hc1 (fun e he => ?_) rfl rfl rfl rfl
    · show (a.queue.tail ++ (a.list ++ [c])).Perm (c :: (a.queue.tail ++ a.list))
      rw [← List.append_assoc]
      exact List.perm_append_singleton c _
    · rw [show (({ a with queue := a.queue.tail } : Account).setBuffer c (some b)).buffer c = some b from
        Function.update_self ..] at he
      cases he
      show a.freed b + (({ a with queue := a.queue.tail } : Account).held.countP
        fun d => Function.update a.buffer c (some b) d = some b) = 0
      rw [hb, Nat.zero_add, List.countP_eq_zero, hheld1]
      intro d hd
      have hne : d ≠ c := by
        rintro rfl
        exact hnd.1 hd
      rw [Function.update_of_ne hne, decide_eq_true_iff]
      exact hnew d (by rw [hheld]; exact List.mem_cons_of_mem c hd)
  exact along_cons h (along_cons h1 (along_cons h1 (along_cons h1 (along_cons h1 (along_cons h1
    (along_cons h2 (along_cons h2 (along_cons h2 h3))))))))

/-- A `bufferevent` that has not been there before. -/
theorem buffereventSocketNew (h : s.account.Owed) (fd : ℤ) :
    (s.buffereventSocketNew fd).account.Owed ∧
      (s.buffereventSocketNew fd).account.freed s.nbev = 0 := by
  have hacc : (s.buffereventSocketNew fd).account =
      { s.account with freed := Function.update s.account.freed s.nbev 0 } :=
    s.account_bev s.nbev { fd, ctx := none, enabled := false, freed := 0 }
  rw [hacc]
  refine ⟨h.sublist (List.Sublist.refl _) rfl (fun b => ?_) rfl rfl, Function.update_self ..⟩
  show Function.update s.account.freed s.nbev 0 b ≤ _
  by_cases hb : b = s.nbev
  · subst hb
    rw [Function.update_self]
    exact Nat.zero_le _
  · rw [Function.update_of_ne hb]

/-- `SyinxKernel_Listen_CB`, when there is a `bufferevent`. -/
theorem along_allocationIChannel (h : s.account.Owed) (hp : PoolInv N s) (fd : ℤ) :
    Along bookStep Account.Owed (s.buffereventSocketNew fd).account
      ((s.buffereventSocketNew fd).allocationIChannel s.nbev fd).1 := by
  obtain ⟨hs, hfreed⟩ := h.buffereventSocketNew fd
  -- no channel has it
  have hnew : ∀ d ∈ (s.buffereventSocketNew fd).account.held,
      (s.buffereventSocketNew fd).account.buffer d ≠ some s.nbev := by
    show ∀ d ∈ s.account.held, s.account.buffer d ≠ some s.nbev
    intro d hd hb
    rcases List.mem_append.mp hd with hd | hd
    · rw [show s.account.buffer d = none from (hp.idle d hd).2] at hb
      cases hb
    · obtain ⟨e, he⟩ := hp.connected d hd
      rw [show s.account.buffer d = some e from he.buffer, Option.some.injEq] at hb
      exact absurd hb he.lt.ne
  cases hq : s.queueILoop with
  | nil =>
    rw [Server.allocationIChannel, show (s.buffereventSocketNew fd).queueILoop = [] from hq]
    refine along_cons hs (hs.free ?_)
    rw [hfreed, Nat.zero_add, List.countP_eq_zero]
    intro d hd hb
    exact hnew d hd (of_decide_eq_true hb)
  | cons c q =>
    rw [Server.allocationIChannel, show (s.buffereventSocketNew fd).queueILoop = c :: q from hq]
    exact hs.along_accept hq fd hfreed hnew

/-- A frame. -/
theorem along_frame (h : s.account.Owed) (l : List Ptr) :
    Along bookStep Account.Owed s.account (l.map .onStatusDoAction : List (Op α)) := by
  induction l with
  | nil => exact h
  | cons c l ih => exact along_cons h ih

/-- **Every callback and every frame.** -/
theorem along_turn (h : s.account.Owed) (hp : PoolInv N s) {e : Event α}
    (hst : s.turn e = some (t, ops)) : Along bookStep Account.Owed t.account ops := by
  cases e with
  | listen fd created =>
    cases created with
    | false => cases hst; exact h
    | true => cases hst; exact h.along_allocationIChannel hp fd
  | recv b data =>
    simp only [Server.turn, Server.syinxKernelRecvCb] at hst
    split_ifs at hst
    cases hst
    cases (s.bev b).ctx with
    | none => exact h
    | some c => exact along_cons h h
  | event b what =>
    simp only [Server.turn, Server.syinxKernelEventCb] at hst
    split_ifs at hst with hl hw
    · obtain ⟨ops, hops, hr⟩ := Option.map_eq_some_iff.mp hst
      obtain ⟨c, hctx, rfl⟩ := Option.map_eq_some_iff.mp hops
      cases hr
      obtain ⟨hc, hserves⟩ := hp.serves_of_ctx hl hctx
      exact h.along_socketFdDel hc hserves.buffer
    · cases hst
      exact h
  | frame =>
    cases hst
    exact h.along_frame s.listConnectClient

end Account.Owed

namespace Account.Budget

variable {a : Account} {c : Ptr} {cs : List Ptr}

theorem tail (h : a.Budget (c :: cs)) : a.Budget cs where
  freed b := (Nat.add_le_add_left (List.sublist_cons_self c cs).countP_le _).trans (h.freed b)
  evFreed d := (Nat.add_le_add_left ((List.sublist_cons_self c cs).count_le d) _).trans (h.evFreed d)
  deleted d := (Nat.add_le_add_left ((List.sublist_cons_self c cs).count_le d) _).trans (h.deleted d)

/-- A channel that is still to be freed has not been, and comes once. -/
theorem head (h : a.Budget (c :: cs)) :
    a.evFreed c + cs.count c = 0 ∧ a.deleted c + cs.count c = 0 ∧ c ∉ cs := by
  have he := h.evFreed c
  have hd := h.deleted c
  rw [List.count_cons_self] at he hd
  exact ⟨by omega, by omega, List.count_eq_zero.mp (by omega)⟩

theorem freeBuffer (h : a.Budget (c :: cs)) : (a.freeBuffer c).Budget cs := by
  unfold Account.freeBuffer
  cases hb : a.buffer c with
  | none => exact h.tail
  | some b =>
    refine ⟨fun e => ?_, h.tail.evFreed, h.tail.deleted⟩
    by_cases heb : e = b
    · subst heb
      have hfreed := h.freed e
      rw [List.countP_cons, if_pos (decide_eq_true hb)] at hfreed
      show Function.update a.freed e _ e + cs.countP (fun d => a.buffer d = some e) ≤ 1
      rw [Function.update_self]
      omega
    · show Function.update a.freed b _ e + _ ≤ 1
      rw [Function.update_of_ne heb]
      exact h.tail.freed e

theorem setBuffer (h : a.Budget cs) (hc : c ∉ cs) (x : Option BevId) :
    (a.setBuffer c x).Budget cs := by
  refine ⟨fun b => ?_, h.evFreed, h.deleted⟩
  have hcount : cs.countP (fun d => Function.update a.buffer c x d = some b) =
      cs.countP fun d => a.buffer d = some b := by
    apply List.countP_congr
    intro d hd
    have hne : d ≠ c := by
      rintro rfl
      exact hc hd
    simp [hne]
  exact hcount ▸ h.freed b

theorem evbufferFree (h : a.Budget cs) (hc : a.evFreed c + cs.count c = 0) :
    (Op.book a (.evbufferFree c : Op α)).Budget cs := by
  refine ⟨h.freed, fun d => ?_, h.deleted⟩
  show Function.update a.evFreed c _ d + _ ≤ 1
  by_cases hd : d = c
  · subst hd
    rw [Function.update_self]
    omega
  · rw [Function.update_of_ne hd]
    exact h.evFreed d

theorem delete (h : a.Budget cs) (hc : a.deleted c + cs.count c = 0) :
    (Op.book a (.delete c : Op α)).Budget cs := by
  refine ⟨h.freed, h.evFreed, fun d => ?_⟩
  show Function.update a.deleted c _ d + _ ≤ 1
  by_cases hd : d = c
  · subst hd
    rw [Function.update_self]
    omega
  · rw [Function.update_of_ne hd]
    exact h.deleted d

/-- The second loop of `SyinxAdapterResource::Close`: a channel is cleared, closed and deleted,
then the others. -/
theorem along_release (h : a.Budget cs) :
    Along bookStep Account.Single a (cs.flatMap fun c =>
      .queuePop :: (clear c ++ ichannelClose c ++ [.delete c]) : List (Op α)) := by
  induction cs generalizing a with
  | nil => exact h.single
  | cons c cs ih =>
    obtain ⟨hev, hdel, hc⟩ := h.head
    have h1 : ({ a with queue := a.queue.tail } : Account).Budget (c :: cs) :=
      ⟨h.freed, h.evFreed, h.deleted⟩
    have h2 := h1.freeBuffer
    have h3 := h2.setBuffer hc none
    have hfree : ∀ b : Account, (b.freeBuffer c).evFreed = b.evFreed ∧
        (b.freeBuffer c).deleted = b.deleted := by
      intro b
      unfold Account.freeBuffer
      cases b.buffer c <;> exact ⟨rfl, rfl⟩
    have h4 := h3.evbufferFree (α := α) (c := c) (by
      show (Account.freeBuffer _ c).evFreed c + _ = 0
      rw [(hfree _).1]
      exact hev)
    have h5 := h4.delete (α := α) (c := c) (by
      show (Account.freeBuffer _ c).deleted c + _ = 0
      rw [(hfree _).2]
      exact hdel)
    rw [List.flatMap_cons]
    exact along_cons h.single (along_cons h1.single (along_cons h1.single (along_cons h1.single
      (along_cons h1.single (along_cons h2.single (along_cons h3.single (along_cons h3.single
        (along_cons h4.single (ih h5)))))))))

end Account.Budget

/-- **`SyinxAdapterResource::Close`** frees nothing twice, wherever it cuts in. -/
theorem Account.Owed.along_resourceClose {s : Server α} (h : s.account.Owed) :
    Along bookStep Account.Single s.account s.resourceClose := by
  have hpush : ∀ (l : List Ptr) (a : Account), a.Budget s.account.held →
      Along bookStep Account.Single a ((l.map .queuePush : List (Op α)) ++
        (s.queueILoop ++ s.listConnectClient).flatMap fun c =>
          .queuePop :: (clear c ++ ichannelClose c ++ [.delete c])) := by
    intro l
    induction l with
    | nil =>
      intro a ha
      exact ha.along_release
    | cons c l ih =>
      intro a ha
      exact along_cons ha.single (ih _ ⟨ha.freed, ha.evFreed, ha.deleted⟩)
  exact hpush s.listConnectClient s.account h.budget

theorem Account.Owed.start (N : ℕ) :
    (Server.resourceInitialize N : Server α).account.Owed := by
  rw [resourceInitialize_eq]
  refine ⟨?_, fun b => ?_, fun c => rfl, fun c => rfl⟩
  · show (List.range N ++ []).Nodup
    rw [List.append_nil]
    exact List.nodup_range
  · -- no channel has an `m_buffer` yet
    refine le_of_eq_of_le ((Nat.zero_add _).trans (List.countP_eq_zero.mpr fun c _ hc => ?_))
      (Nat.zero_le 1)
    rw [decide_eq_true_iff] at hc
    dsimp only [Server.account] at hc
    split_ifs at hc <;> cases hc

end Syinx.Tcp
