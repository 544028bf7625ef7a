import Syinx.Library.Counting
import Syinx.Tcp.Release
import Mathlib.Data.List.Chain

/-!
# Login and Logout

`OnClientConnect` calls the player's `Login`, `Clear` its `Logout`. As long as the
server runs, `Clear` is called when a connection ends, and the calls of a player come
in pairs. `SyinxAdapterResource::Close` clears every channel, those without a client
too, and `Clear` looks at `m_buffer` before it frees it, but at nothing before it calls
`Logout`.

## What is proved

* `PairInv.step` — while the server runs, the calls alternate, `Login` first, one for
  each connection and one for each connection that has ended.
* `paired_iff` — in a run that ends with `Close` they do so exactly if all channels
  are connected when it is called.
-/

namespace Syinx.Tcp

open Syinx.Library

variable {α : Type}

/-! ### Alternating calls -/

/-- The calls strictly alternate, `Login` first. -/
def Alternates (l : List Callback) : Prop := (Callback.logout :: l).IsChain (· ≠ ·)

instance : DecidablePred Alternates :=
  fun l => inferInstanceAs (Decidable ((Callback.logout :: l).IsChain (· ≠ ·)))

namespace Alternates

variable {l : List Callback}

theorem nil : Alternates [] := List.isChain_singleton _

/-- One more call continues the alternation if it is not the one that came last. -/
theorem append_iff (h : Alternates l) (x : Callback) :
    Alternates (l ++ [x]) ↔ l.getLast?.getD .logout ≠ x := by
  unfold Alternates at h ⊢
  rw [← List.cons_append, List.isChain_append]
  simp [h, List.getLast?_cons]

theorem login_iff (h : Alternates l) : Alternates (l ++ [.login]) ↔ l.getLast? ≠ some .login := by
  rw [h.append_iff]
  rcases l.getLast? with _ | x
  · simp
  · simp

theorem logout_iff (h : Alternates l) : Alternates (l ++ [.logout]) ↔ l.getLast? = some .login := by
  rw [h.append_iff]
  rcases l.getLast? with _ | x
  · simp
  · cases x <;> simp

theorem of_append {l' : List Callback} (h : Alternates (l ++ l')) : Alternates l := by
  unfold Alternates at h ⊢
  rw [← List.cons_append, List.isChain_append] at h
  exact h.1

/-- There is a `Login` more than there are `Logout`s, if a `Login` came last. -/
theorem count_login (h : Alternates l) :
    l.count .login = l.count .logout + if l.getLast? = some .login then 1 else 0 := by
  induction l using List.reverseRecOn with
  | nil => rfl
  | append_singleton l x ih =>
    have hl : Alternates l := h.of_append
    rw [List.count_append, List.count_append, ih hl, List.getLast?_concat]
    cases x with
    | login => simp [hl.login_iff.mp h]
    | logout => simp [hl.logout_iff.mp h]

end Alternates

/-! ### Connections -/

namespace Server

/-- How many connections channel `c` has been given. -/
def connections (s : Server α) (c : Ptr) : ℕ := Nat.count (fun b => (s.bev b).ctx = some c) s.nbev

/-- How many of them have ended. -/
def ended (s : Server α) (c : Ptr) : ℕ :=
  Nat.count (fun b => (s.bev b).ctx = some c ∧ (s.bev b).freed ≠ 0) s.nbev

/-- The calls of each player alternate, `Login` first: a `Login` for each connection, a
`Logout` for each that has ended. -/
structure Paired (s : Server α) : Prop where
  alternates : ∀ c, Alternates (s.callbacks c)
  login : ∀ c, (s.callbacks c).count .login = s.connections c
  logout : ∀ c, (s.callbacks c).count .logout = s.ended c

end Server

/-! ### While the server runs -/

/-- The calls come in pairs, and a connected channel's last call is `Login`. -/
structure PairInv (N : ℕ) (s : Server α) : Prop where
  release : ReleaseInv N s
  paired : s.Paired
  last : ∀ c, (s.callbacks c).getLast? = some .login ↔ c ∈ s.listConnectClient

namespace PairInv

variable {N : ℕ} {s t : Server α}

theorem start (N : ℕ) : PairInv N (Server.resourceInitialize N : Server α) where
  release := .start N
  paired := by
    rw [resourceInitialize_eq]
    exact ⟨fun _ => .nil, fun _ => rfl, fun _ => rfl⟩
  last c := by rw [resourceInitialize_eq]; simp [Server.callbacks]

/-- Nothing that matters has changed. -/
theorem congr (h : PairInv N s) (ht : ReleaseInv N t) (hcall : ∀ c, t.callbacks c = s.callbacks c)
    (hcon : ∀ c, t.connections c = s.connections c) (hend : ∀ c, t.ended c = s.ended c)
    (hlist : t.listConnectClient = s.listConnectClient) : PairInv N t where
  release := ht
  paired := by
    refine ⟨fun c => ?_, fun c => ?_, fun c => ?_⟩
    · rw [hcall]; exact h.paired.alternates c
    · rw [hcall, hcon]; exact h.paired.login c
    · rw [hcall, hend]; exact h.paired.logout c
  last c := by rw [hcall, hlist]; exact h.last c

/-- A connection that is refused belongs to no channel. -/
theorem refused (h : PairInv N s) (fd : ℤ)
    (ht : ReleaseInv N ((s.buffereventSocketNew fd).buffereventFree s.nbev)) :
    PairInv N ((s.buffereventSocketNew fd).buffereventFree s.nbev) := by
  refine h.congr ht (fun _ => rfl) (fun c => ?_) (fun c => ?_) rfl
  · apply (Nat.count_succ _ s.nbev).trans
    rw [count_congr (q := fun b => (s.bev b).ctx = some c)]
    · simp [Server.connections, Server.buffereventFree, Server.buffereventSocketNew]
    · intro b hb
      simp [Server.buffereventFree, Server.buffereventSocketNew, hb.ne]
  · apply (Nat.count_succ _ s.nbev).trans
    rw [count_congr (q := fun b => (s.bev b).ctx = some c ∧ (s.bev b).freed ≠ 0)]
    · simp [Server.ended, Server.buffereventFree, Server.buffereventSocketNew]
    · intro b hb
      simp [Server.buffereventFree, Server.buffereventSocketNew, hb.ne]

/-- A connection is accepted: one `Login`. -/
theorem accepted (h : PairInv N s) {c : Ptr} (hc : c ∉ s.listConnectClient) (fd : ℤ)
    (ht : ReleaseInv N (s.accepted c fd)) : PairInv N (s.accepted c fd) := by
  have hcall : ∀ d, (s.accepted c fd).callbacks d =
      s.callbacks d ++ if c = d then [.login] else [] := by
    intro d
    simp only [Server.callbacks, Server.accepted, List.filterMap_append]
    split_ifs with hd <;> simp [Ev.callback, hd]
  have hcon : ∀ d, (s.accepted c fd).connections d = s.connections d + if c = d then 1 else 0 := by
    intro d
    apply (Nat.count_succ _ s.nbev).trans
    rw [count_congr (q := fun b => (s.bev b).ctx = some d)]
    · simp [Server.connections, Server.accepted]
    · intro b hb
      simp [Server.accepted, hb.ne]
  have hend : ∀ d, (s.accepted c fd).ended d = s.ended d := by
    intro d
    apply (Nat.count_succ _ s.nbev).trans
    rw [count_congr (q := fun b => (s.bev b).ctx = some d ∧ (s.bev b).freed ≠ 0)]
    · simp [Server.ended, Server.accepted]
    · intro b hb
      simp [Server.accepted, hb.ne]
  have hlast : (s.callbacks c).getLast? ≠ some .login := fun hl => hc ((h.last c).mp hl)
  refine ⟨ht, ⟨fun d => ?_, fun d => ?_, fun d => ?_⟩, fun d => ?_⟩
  · rw [hcall]
    split_ifs with hd
    · subst hd; exact (h.paired.alternates c).login_iff.mpr hlast
    · rw [List.append_nil]; exact h.paired.alternates d
  · rw [hcall, hcon, List.count_append, h.paired.login]
    split_ifs <;> rfl
  · rw [hcall, hend, List.count_append, h.paired.logout]
    split_ifs <;> rfl
  · show _ ↔ d ∈ s.listConnectClient ++ [c]
    rw [hcall, List.mem_append, List.mem_singleton, ← h.last d]
    split_ifs with hd
    · simp [hd]
    · simp [Ne.symm hd]

/-- A connection ends: one `Logout`. -/
theorem departed (h : PairInv N s) {c : Ptr} {b : BevId} (hc : c ∈ s.listConnectClient)
    (hcb : s.Serves c b) (packs : List (Pack α)) (ht : ReleaseInv N (s.departed c b packs)) :
    PairInv N (s.departed c b packs) := by
  have hcall : ∀ d, (s.departed c b packs).callbacks d =
      s.callbacks d ++ if c = d then [.logout] else [] := by
    intro d
    simp only [Server.callbacks, Server.departed, List.filterMap_append,
      Server.filterMap_recvClientPack, List.append_nil]
    split_ifs with hd <;> simp [Ev.callback, hd]
  have hctx : ∀ e, ((s.departed c b packs).bev e).ctx = (s.bev e).ctx := by
    intro e
    by_cases he : e = b
    · subst he; simp [Server.departed]
    · simp [Server.departed, he]
  have hcon : ∀ d, (s.departed c b packs).connections d = s.connections d := fun d =>
    count_congr fun e _ => by rw [hctx]
  have hend : ∀ d, (s.departed c b packs).ended d = s.ended d + if c = d then 1 else 0 := by
    intro d
    split_ifs with hd
    · subst hd
      refine count_insert hcb.lt ?_ ?_ fun e he => ?_
      · simp [(Server.live_iff.mp hcb.live).2.2]
      · simp [hcb.ctx, Server.departed]
      · simp [Server.departed, he]
    · apply count_congr
      intro e _
      by_cases he : e = b
      · subst he; simp [hctx, hcb.ctx, hd]
      · simp [Server.departed, he]
  have hlast : (s.callbacks c).getLast? = some .login := (h.last c).mpr hc
  refine ⟨ht, ⟨fun d => ?_, fun d => ?_, fun d => ?_⟩, fun d => ?_⟩
  · rw [hcall]
    split_ifs with hd
    · subst hd; exact (h.paired.alternates c).logout_iff.mpr hlast
    · rw [List.append_nil]; exact h.paired.alternates d
  · rw [hcall, hcon, List.count_append, h.paired.login]
    split_ifs <;> rfl
  · rw [hcall, hend, List.count_append, h.paired.logout]
    split_ifs <;> rfl
  · show _ ↔ d ∈ s.listConnectClient.filter (· ≠ c)
    rw [hcall, List.mem_filter, ← h.last d]
    split_ifs with hd
    · simp [hd]
    · simp [Ne.symm hd]

variable [Inhabited α] {P : ParseFunc α}

/-- **A step of the server** keeps the calls in pairs. -/
theorem step {e : Event α} (h : PairInv N s) (hst : s.step P e = some t) : PairInv N t := by
  have ht := h.release.step hst
  cases Server.happens_of_step hst with
  | notCreated | recvNull | noHangup => exact h
  | refused => exact h.refused _ ht
  | accepted hq =>
    refine h.accepted (fun hc => ?_) _ ht
    exact h.release.pool.recycled.not_mem_free hc (by rw [hq]; exact List.mem_cons_self)
  | recv =>
    refine h.congr ht (fun c => ?_) (fun _ => rfl) (fun _ => rfl) rfl
    simp [Server.callbacks, Server.record, Server.setChan, Ev.callback]
  | @hangup b c _ _ hl hc _ hx =>
    obtain ⟨hmem, hcb⟩ := h.release.pool.serves_of_ctx hl hc
    obtain ⟨packs, -, rfl⟩ := Server.exec_socketFdDel hcb.buffer hx
    exact h.departed hmem hcb packs ht
  | frame hx =>
    refine Server.inv_of_frame (fun u c packs _ hu _ => ?_) h hx
    refine hu.congr (hu.release.input _ _ _) (fun d => ?_) (fun _ => rfl) (fun _ => rfl) rfl
    simp only [Server.callbacks, Server.served, Server.record, Server.setChan,
      List.filterMap_append, Server.filterMap_recvClientPack, List.append_nil]

/-! ### When it closes -/

theorem connections_close (h : PairInv N s) (hx : exec (Op.run P) s s.resourceClose = some t)
    (c : Ptr) : t.connections c = s.connections c := by
  have hd := Server.Drains.of_exec h.release.pool.recycled.nodup_append hx
  unfold Server.connections
  rw [hd.nbev]
  exact count_congr fun b _ => by rw [hd.ctx]

/-- All connections have ended. -/
theorem ended_close (h : PairInv N s) (hx : exec (Op.run P) s s.resourceClose = some t)
    (c : Ptr) : t.ended c = s.connections c := by
  rw [← h.connections_close hx c]
  apply count_congr
  intro b hb
  rw [(h.release.closed hx).freed b hb]
  simp

/-- If all channels are connected each of them gets the `Logout` that it lacks. -/
theorem paired_close (h : PairInv N s) (hx : exec (Op.run P) s s.resourceClose = some t)
    (hq : s.queueILoop = []) : t.Paired := by
  have hrec := h.release.pool.recycled
  have hd := Server.Drains.of_exec hrec.nodup_append hx
  have hclosed := h.release.closed hx
  have hlast : ∀ c < N, (s.callbacks c).getLast? = some .login := by
    intro c hc
    apply (h.last c).mpr
    apply (hrec.mem_iff.mp (List.mem_range.mpr hc)).resolve_left
    rw [hq]
    exact List.not_mem_nil
  have hout : ∀ c, ¬ c < N → t.callbacks c = s.callbacks c := by
    intro c hc
    have hnot : c ∉ s.queueILoop ++ s.listConnectClient := fun hm =>
      hc (List.mem_range.mp (hrec.perm.mem_iff.mp hm))
    rw [hd.callbacks, List.count_eq_zero_of_not_mem hnot, List.replicate_zero, List.append_nil]
  have halt : ∀ c, Alternates (t.callbacks c) := by
    intro c
    by_cases hc : c < N
    · rw [hclosed.cleared c hc]
      exact (h.paired.alternates c).logout_iff.mpr (hlast c hc)
    · rw [hout c hc]
      exact h.paired.alternates c
  have hlogin : ∀ c, (t.callbacks c).count .login = t.connections c := by
    intro c
    rw [h.connections_close hx, ← h.paired.login, hd.callbacks, List.count_append,
      List.count_replicate]
    simp
  refine ⟨halt, hlogin, fun c => ?_⟩
  have hcount := (halt c).count_login
  have hlast' : (t.callbacks c).getLast? ≠ some .login := by
    by_cases hc : c < N
    · rw [hclosed.cleared c hc, List.getLast?_concat]
      simp
    · rw [hout c hc]
      intro hl
      exact hc (List.mem_range.mp (hrec.mem_iff.mpr (.inr ((h.last c).mp hl))))
  rw [if_neg hlast', hlogin, h.connections_close hx, Nat.add_zero] at hcount
  rw [h.ended_close hx, hcount]

/-- `Close` calls every player's `Logout`: they come in pairs exactly if all the channels
are connected. -/
theorem paired_close_iff (h : PairInv N s) (hx : exec (Op.run P) s s.resourceClose = some t) :
    t.Paired ↔ s.queueILoop = [] := by
  refine ⟨fun ht => ?_, h.paired_close hx⟩
  -- the `Logout` of an idle channel follows no `Login`
  by_contra hne
  have hrec := h.release.pool.recycled
  obtain ⟨c, hc⟩ := List.exists_mem_of_ne_nil _ hne
  have hcN : c < N := List.mem_range.mp (hrec.mem_iff.mpr (.inl hc))
  have halt := ht.alternates c
  rw [(h.release.closed hx).cleared c hcN] at halt
  have hlast := halt.of_append.logout_iff.mp halt
  exact hrec.not_mem_free ((h.last c).mp hlast) hc

end PairInv

variable [Inhabited α]

/-- **Login and Logout.** In a run from `Initialize` to the end of `Close`, the calls of
each player come in pairs all the way exactly if every channel is connected when `Close`
is called. -/
theorem paired_iff (P : ParseFunc α) (N : ℕ) (es : List (Event α)) (s t : Server α)
    (hs : exec (Server.step P) (Server.resourceInitialize N) es = some s)
    (ht : exec (Op.run P) s s.resourceClose = some t) :
    (Along (Server.step P) Server.Paired (Server.resourceInitialize N) es ∧ t.Paired) ↔
      s.queueILoop = [] := by
  have hstep : ∀ (u : Server α) e v, PairInv N u → u.step P e = some v → PairInv N v :=
    fun _ _ _ hu hv => hu.step hv
  have hinv : PairInv N s := inv_of_exec hstep (.start N) hs
  rw [hinv.paired_close_iff ht]
  exact and_iff_right (Along.of_inv hstep (fun _ hu => hu.paired) (.start N) es)

/-- One channel, used twice, its second client connected when the server closes. -/
def secondClient : List (Event UInt8) := [.listen 7 true, .event 0 bevEventEof, .listen 8 true]

theorem paired_secondClient :
    ∃ s t, exec (Server.step recvValuesFromString) (Server.resourceInitialize 1) secondClient = some s ∧
      exec (Op.run recvValuesFromString) s s.resourceClose = some t ∧
      t.callbacks 0 = [.login, .logout, .login, .logout] ∧ t.Paired :=
  ⟨_, _, rfl, rfl, rfl, ((paired_iff recvValuesFromString 1 secondClient _ _ rfl rfl).mpr rfl).2⟩

/-- One channel, and no client: its player is logged out all the same. -/
theorem not_paired_unused :
    ∃ s t, exec (Server.step recvValuesFromString) (Server.resourceInitialize 1)
        ([] : List (Event UInt8)) = some s ∧
      exec (Op.run recvValuesFromString) s s.resourceClose = some t ∧
      t.callbacks 0 = [.logout] ∧ ¬ t.Paired :=
  ⟨_, _, rfl, rfl, rfl, fun h => absurd (h.alternates 0) (by decide)⟩

end Syinx.Tcp
