/-
What an epoll wait reports, over the watch records of Naos.Fs.EpollWatch.

A collection visits the watches of one list in order: it passes over a disabled watch and stops at maxevents. A
visit reports a level-triggered watch when anything is ready, and an edge-triggered one when a ready bit is outside
last_ready_events; a consuming visit then sets that word to what it saw and disables a reported one-shot watch.

Results:
- `epollCollectReadyLocked_reports`: every reported event is the ready events and the data of an enabled watch,
  within its requested events and EPOLLERR, EPOLLHUP and EPOLLNVAL, with IN and RDNORM, OUT and WRNORM aliased;
- `epollCollectReadyLocked_level`: a level-triggered watch whose file is ready is reported by every collection that
  reaches it before maxevents;
- `epollCollectWatch_edge`: a consuming visit reports an edge-triggered watch exactly when its ready events have a
  bit outside last_ready_events, and leaves them there; a visit that reports nothing adds no bit;
- `sysRun_evolves`: until an ADD or a MOD of its file, a watch keeps its file, events, data and flags, and once
  disabled it stays disabled;
- `epoll_watch_contract`: the watch invariant and what a collection reports, at every state of every run;
- `epoll_reports_nval_and_misses_unwoken_edge`: a watch of EPOLLIN on a file whose poll answers EPOLLNVAL is
  reported with EPOLLNVAL, and an edge that falls and rises again between two waits, with no wake notification, is
  not reported.
-/
import Mathlib
import Naos.Lib.BitFlags
import Naos.Fs.EpollWatch

namespace Naos.Epoll.Watch

open Naos.Epoll

/-! ## Masks -/

section Masks

/-- a mask inside a mask, bit by bit -/
theorem within_iff (x y : UInt32) :
    x &&& ~~~y = 0 ↔ ∀ i, x.toBitVec.getLsbD i = true → y.toBitVec.getLsbD i = true := by
  rw [← UInt32.toBitVec_inj, UInt32.toBitVec_and, UInt32.toBitVec_not, UInt32.toBitVec_zero]
  exact BitFlags.and_not_eq_zero_iff _ _

theorem within_trans {x y z : UInt32} (hxy : x &&& ~~~y = 0) (hyz : y &&& ~~~z = 0) : x &&& ~~~z = 0 := by
  rw [within_iff] at *
  exact fun i hx => hyz i (hxy i hx)

theorem within_or_left {x y : UInt32} (z : UInt32) (h : x &&& ~~~y = 0) : x &&& ~~~(y ||| z) = 0 := by
  rw [within_iff] at *
  intro i hx
  simp [UInt32.toBitVec_or, h i hx]

theorem within_or_right {x z : UInt32} (y : UInt32) (h : x &&& ~~~z = 0) : x &&& ~~~(y ||| z) = 0 := by
  rw [UInt32.or_comm]
  exact within_or_left y h

theorem and_within (x y : UInt32) : (x &&& y) &&& ~~~y = 0 := by
  rw [UInt32.and_assoc, UInt32.and_not_self, UInt32.and_zero]

/-- the aliasing only adds bits -/
theorem within_expandEvents (x : UInt32) : x &&& ~~~expandEvents x = 0 := by
  have step : ∀ (c : Prop) [Decidable c] {y : UInt32} (z : UInt32),
      x &&& ~~~y = 0 → x &&& ~~~(if c then y ||| z else y) = 0 := by
    intro c _ y z h
    split
    · exact within_or_left z h
    · exact h
  simp only [expandEvents]
  exact step _ _ (step _ _ (step _ _ (step _ _ UInt32.and_not_self)))

/-- EPOLLNVAL is always reportable -/
theorem nval_within (x : UInt32) : EPOLLNVAL &&& ~~~expandEvents (x ||| EPOLL_ALWAYS_EVENTS) = 0 :=
  within_trans (within_or_right x (by decide)) (within_expandEvents _)

theorem epollWatchReadyEvents_within (hasPoll : FileId → Bool) (ready : FileId → UInt32) (w : EpollWatch) :
    epollWatchReadyEvents hasPoll ready w &&& ~~~expandEvents (w.events ||| EPOLL_ALWAYS_EVENTS) = 0 := by
  simp only [epollWatchReadyEvents, epollReportableEvents]
  generalize vfsPollWithTable (if hasPoll w.file then some (ready w.file) else none) (w.events ||| EPOLL_ALWAYS_EVENTS)
    = pollRet
  split
  · exact nval_within w.events
  · exact and_within _ _

end Masks

section Visit

variable {readyEvents : UInt32} {w : EpollWatch}

theorem epollCollectWatch_some {consume : Bool} {ev : EpollEvent}
    (h : (epollCollectWatch consume readyEvents w).1 = some ev) : ev = ⟨readyEvents, w.data⟩ ∧ readyEvents ≠ 0 := by
  have htrue : (epollCollectWatch true readyEvents w).1 = some ev := by
    cases consume
    · rwa [epollCollectWatch_false] at h
    · exact h
  rw [epollCollectWatch_true] at htrue
  split_ifs at htrue with hedge hne
  cases htrue
  exact ⟨rfl, hne⟩

/-- a level-triggered watch is reported when anything is ready -/
theorem epollCollectWatch_level {consume : Bool} (hlt : w.edgeTriggered = false) (hne : readyEvents ≠ 0) :
    (epollCollectWatch consume readyEvents w).1 = some ⟨readyEvents, w.data⟩ := by
  cases consume <;> simp [epollCollectWatch_false, epollCollectWatch_true, hlt, hne]

/-- a consuming visit reports an edge-triggered watch exactly when a ready bit is outside last_ready_events, and
leaves the ready events there -/
theorem epollCollectWatch_edge (readyEvents : UInt32) (w : EpollWatch) (het : w.edgeTriggered = true) :
    ((epollCollectWatch true readyEvents w).1.isSome ↔ readyEvents &&& ~~~w.lastReadyEvents ≠ 0) ∧
      (epollCollectWatch true readyEvents w).2.lastReadyEvents = readyEvents := by
  rw [epollCollectWatch_true]
  by_cases hchanged : readyEvents &&& ~~~w.lastReadyEvents = 0
  · simp [het, hchanged]
  · have hne : readyEvents ≠ 0 := fun h0 => hchanged (by rw [h0, UInt32.zero_and])
    simp [hchanged, hne]

/-- a consuming visit that reports nothing adds no bit to last_ready_events -/
theorem epollCollectWatch_quiet (readyEvents : UInt32) (w : EpollWatch)
    (h : (epollCollectWatch true readyEvents w).1 = none) :
    (epollCollectWatch true readyEvents w).2.lastReadyEvents &&& ~~~w.lastReadyEvents = 0 := by
  rw [epollCollectWatch_true] at h ⊢
  split_ifs at h ⊢ with hedge hne
  · exact hedge.2
  · rw [ne_eq, Decidable.not_not] at hne
    exact UInt32.zero_and

/-- a consuming visit that reports a one-shot watch disables it -/
theorem epollCollectWatch_oneShot (readyEvents : UInt32) (w : EpollWatch) (hone : w.oneShot = true)
    (h : (epollCollectWatch true readyEvents w).1.isSome) : (epollCollectWatch true readyEvents w).2.disabled = true := by
  rw [epollCollectWatch_true] at h ⊢
  split_ifs at h ⊢
  · simp at h
  · simp [hone]
  · simp at h

/-- a visit that does not consume changes nothing -/
theorem epollCollectWatch_peek (readyEvents : UInt32) (w : EpollWatch) :
    (epollCollectWatch false readyEvents w).2 = w := by
  rw [epollCollectWatch_false]

end Visit

section Loop

variable {hasPoll : FileId → Bool} {ready : FileId → UInt32} {maxevents : Nat} {consume : Bool}

/-- maxevents found, the loop stops -/
theorem epollCollectReadyLoop_of_le (ws : List EpollWatch) {events : List EpollEvent}
    (h : maxevents ≤ events.length) :
    epollCollectReadyLoop hasPoll ready maxevents consume ws events = (events, ws) := by
  induction ws with
  | nil => rfl
  | cons browse rest ih =>
    rw [epollCollectReadyLoop_cons]
    split
    · rw [ih]
    · rfl

theorem epollCollectReadyLoop_extends (ws : List EpollWatch) (events : List EpollEvent) :
    events <+: (epollCollectReadyLoop hasPoll ready maxevents consume ws events).1 := by
  induction ws generalizing events with
  | nil => exact List.prefix_refl _
  | cons browse rest ih =>
    rw [epollCollectReadyLoop_cons]
    split
    · exact ih events
    split
    · exact List.prefix_refl _
    · exact (List.prefix_append _ _).trans (ih _)

/-- the loop over a list is the loop over its front, then over the rest after the events found there -/
theorem epollCollectReadyLoop_append (pre rest : List EpollWatch) (events : List EpollEvent) :
    epollCollectReadyLoop hasPoll ready maxevents consume (pre ++ rest) events =
      ((epollCollectReadyLoop hasPoll ready maxevents consume rest
          (epollCollectReadyLoop hasPoll ready maxevents consume pre events).1).1,
        (epollCollectReadyLoop hasPoll ready maxevents consume pre events).2 ++
          (epollCollectReadyLoop hasPoll ready maxevents consume rest
            (epollCollectReadyLoop hasPoll ready maxevents consume pre events).1).2) := by
  induction pre generalizing events with
  | nil => rfl
  | cons browse pre ih =>
    rw [List.cons_append, epollCollectReadyLoop_cons, epollCollectReadyLoop_cons]
    split
    · simp [ih]
    split
    · next hle => simp [epollCollectReadyLoop_of_le rest hle]
    · simp [ih]

/-- every event the loop finds is the ready events and data of an enabled watch with something ready -/
theorem epollCollectReadyLoop_reports (ws : List EpollWatch) (events : List EpollEvent) :
    ∀ ev ∈ (epollCollectReadyLoop hasPoll ready maxevents consume ws events).1, ev ∈ events ∨
      ∃ w ∈ ws, w.disabled = false ∧ ev = ⟨epollWatchReadyEvents hasPoll ready w, w.data⟩ ∧
        epollWatchReadyEvents hasPoll ready w ≠ 0 := by
  induction ws generalizing events with
  | nil => exact fun ev hev => Or.inl hev
  | cons browse rest ih =>
    intro ev hev
    rw [epollCollectReadyLoop_cons] at hev
    split at hev
    · rcases ih events ev hev with hold | ⟨w, hw, hrest⟩
      · exact Or.inl hold
      · exact Or.inr ⟨w, List.mem_cons_of_mem _ hw, hrest⟩
    split at hev
    · exact Or.inl hev
    · next hd _ =>
      rcases ih _ ev hev with hfound | ⟨w, hw, hrest⟩
      · rcases List.mem_append.1 hfound with hold | hnew
        · exact Or.inl hold
        · cases hvisit : (epollCollectWatch consume (epollWatchReadyEvents hasPoll ready browse) browse).1 with
          | none => rw [hvisit] at hnew; exact absurd hnew List.not_mem_nil
          | some e =>
            rw [hvisit, Option.toList_some, List.mem_singleton] at hnew
            obtain ⟨rfl, hne⟩ := epollCollectWatch_some hvisit
            exact Or.inr ⟨browse, List.mem_cons_self, by simpa using hd, hnew, hne⟩
      · exact Or.inr ⟨w, List.mem_cons_of_mem _ hw, hrest⟩

/-- the loop finds at most maxevents events -/
theorem epollCollectReadyLoop_length_le (ws : List EpollWatch) {events : List EpollEvent}
    (h : events.length ≤ maxevents) :
    (epollCollectReadyLoop hasPoll ready maxevents consume ws events).1.length ≤ maxevents := by
  induction ws generalizing events with
  | nil => exact h
  | cons browse rest ih =>
    rw [epollCollectReadyLoop_cons]
    split
    · exact ih h
    split
    · exact h
    · next hlt =>
      apply ih
      rw [List.length_append]
      have : (Option.toList (epollCollectWatch consume (epollWatchReadyEvents hasPoll ready browse) browse).1).length
          ≤ 1 := by
        cases (epollCollectWatch consume (epollWatchReadyEvents hasPoll ready browse) browse).1 <;> simp
      omega

/-- a loop that reaches an enabled watch visits it: its event follows those of the watches before it -/
theorem epollCollectReadyLoop_visit (pre post : List EpollWatch) {w : EpollWatch} (hd : w.disabled = false)
    (hreach : (epollCollectReadyLoop hasPoll ready maxevents consume pre []).1.length < maxevents) :
    (epollCollectReadyLoop hasPoll ready maxevents consume pre []).1 ++
        (epollCollectWatch consume (epollWatchReadyEvents hasPoll ready w) w).1.toList <+:
      (epollCollectReadyLoop hasPoll ready maxevents consume (pre ++ w :: post) []).1 ∧
    (epollCollectReadyLoop hasPoll ready maxevents consume (pre ++ w :: post) []).2[pre.length]? =
      some (epollCollectWatch consume (epollWatchReadyEvents hasPoll ready w) w).2 := by
  have hlen := (@epollCollectReadyLoop_evolves hasPoll ready maxevents consume pre []).length_eq
  rw [epollCollectReadyLoop_append, epollCollectReadyLoop_cons, if_neg (by simp [hd]), if_neg (by omega)]
  refine ⟨epollCollectReadyLoop_extends _ _, ?_⟩
  rw [List.getElem?_append_right (by omega), ← hlen, Nat.sub_self]
  rfl

/-- a disabled watch is passed over: it stays as it is and finds nothing -/
theorem epollCollectReadyLoop_disabled (pre post : List EpollWatch) {w : EpollWatch} (hd : w.disabled = true) :
    epollCollectReadyLoop hasPoll ready maxevents consume (pre ++ w :: post) [] =
      Prod.map id (fun l => l.take pre.length ++ w :: l.drop pre.length)
        (epollCollectReadyLoop hasPoll ready maxevents consume (pre ++ post) []) := by
  have hlen := (@epollCollectReadyLoop_evolves hasPoll ready maxevents consume pre []).length_eq
  rw [epollCollectReadyLoop_append, epollCollectReadyLoop_append, epollCollectReadyLoop_cons, if_pos hd]
  simp [← hlen]

end Loop

/-! ## A watch between two ADDs or MODs of its file -/

/-- an epoll_ctl ADD or MOD on `epoll` of a descriptor of `file`: the calls that make or re-arm its watch -/
def Rearms (epoll : EpollId) (file : FileId) : EpollOp → Prop
  | .ctl files epollFile op fd _ =>
    (op = EPOLL_CTL_ADD ∨ op = EPOLL_CTL_MOD) ∧ files.handle epollFile = some epoll ∧ files.fdTable fd = some file
  | _ => False

section Frame

variable {inode : FileId → InodeId} {hasPoll : FileId → Bool} {s : EpollSys}

theorem epollWatchDetachLocked_sublist (epoll : EpollId) (w : EpollWatch) (unlinkFile : Bool) (e : EpollId) :
    ((epollWatchDetachLocked inode s epoll w unlinkFile).watches e).Sublist (s.watches e) := by
  rw [epollWatchDetachLocked_watches]
  by_cases he : e = epoll
  · subst he
    rw [Function.update_self]
    exact List.erase_sublist
  · rw [Function.update_of_ne he]

theorem epollOnCloseFile_sublist (file : FileId) (fdRef : Int) (e : EpollId) :
    ((epollOnCloseFile inode s file fdRef).watches e).Sublist (s.watches e) := by
  have step : ∀ (drop : List EpollId) (s : EpollSys),
      ((drop.foldl (epollDropWatch inode file) s).watches e).Sublist (s.watches e) := by
    intro drop
    induction drop with
    | nil => exact fun s => List.Sublist.refl _
    | cons owner drop ih =>
      intro s
      rw [List.foldl_cons]
      refine (ih _).trans ?_
      unfold epollDropWatch
      split
      · exact epollWatchDetachLocked_sublist _ _ _ e
      · exact List.Sublist.refl _
  unfold epollOnCloseFile
  split
  · exact List.Sublist.refl _
  simp only
  split
  · exact List.Sublist.refl _
  · exact step _ _

theorem epollfsRelease_sublist (epoll e : EpollId) :
    ((epollfsRelease inode s epoll).watches e).Sublist (s.watches e) := by
  unfold epollfsRelease
  generalize s.watches epoll = l
  induction l generalizing s with
  | nil => exact List.Sublist.refl _
  | cons w l ih =>
    rw [List.foldl_cons]
    exact (ih (s := epollWatchDestroy inode s epoll w)).trans (epollWatchDetachLocked_sublist _ _ _ e)

theorem epollWatchUpdateEvents_file (epoll : EpollId) (w : EpollWatch) (events : UInt32) (pollWait : PollWait) :
    (epollWatchUpdateEvents inode epoll w events pollWait).1.file = w.file ∧
      (epollWatchUpdateEvents inode epoll w events pollWait).1.events = events := by
  unfold epollWatchUpdateEvents epollWatchDisarm epollWatchArm
  split_ifs <;> simp_all

/-- a step that is no ADD or MOD of the file leaves a watch of it older than the step -/
theorem sysStep_evolves {epoll : EpollId} {file : FileId} {op : EpollOp} (hop : ¬Rearms epoll file op) :
    ∀ w' ∈ (sysStep inode hasPoll s op).watches epoll, w'.file = file → ∃ w ∈ s.watches epoll, WatchEvolves w w' := by
  intro w' hw' hfile
  have hsub : ∀ {l : List EpollWatch}, l.Sublist (s.watches epoll) → w' ∈ l → ∃ w ∈ s.watches epoll, WatchEvolves w w' :=
    fun hl hw => ⟨w', hl.subset hw, WatchEvolves.refl w'⟩
  cases op with
  | ctl files epollFile c fd event =>
    change w' ∈ (epollCtlFile inode files s epollFile c fd event).2.watches epoll at hw'
    rcases @epollCtlFile_cases inode files s epollFile c fd event with ⟨-, hsame⟩ |
        ⟨e, target, hepoll, hfd, -, ⟨ev, hadd, -, -, hnew⟩ | ⟨w, -, -, hnew⟩ | ⟨w, ev, hmod, -, hfind, hnew⟩⟩
    · rw [hsame] at hw'
      exact hsub (List.Sublist.refl _) hw'
    · rw [hnew, epollCtlAdd_watches, mem_update_append] at hw'
      rcases hw' with hold | ⟨rfl, rfl⟩
      · exact hsub (List.Sublist.refl _) hold
      · exact absurd ⟨Or.inl hadd, hepoll, hfile ▸ hfd⟩ hop
    · rw [hnew] at hw'
      exact hsub (epollWatchDetachLocked_sublist _ _ _ _) hw'
    · rw [hnew] at hw'
      simp only [epollCtlMod] at hw'
      by_cases he : epoll = e
      · subst he
        rw [Function.update_self, List.mem_map] at hw'
        obtain ⟨b, hb, rfl⟩ := hw'
        by_cases hbw : b = w
        · rw [if_pos hbw] at hfile
          simp only at hfile
          rw [(epollWatchUpdateEvents_file epoll w _ s.pollWait).1, (findWatch_some hfind).2] at hfile
          exact absurd ⟨Or.inr hmod, hepoll, hfile ▸ hfd⟩ hop
        · exact ⟨b, hb, by rw [if_neg hbw]; exact WatchEvolves.refl b⟩
      · rw [Function.update_of_ne he] at hw'
        exact hsub (List.Sublist.refl _) hw'
  | onClose f fdRef => exact hsub (epollOnCloseFile_sublist f fdRef epoll) hw'
  | release e => exact hsub (epollfsRelease_sublist e epoll) hw'
  | setReady f answer => exact hsub (List.Sublist.refl _) hw'
  | notify i events => exact forall₂_evolves_mem (vfsPollNotifyInode_evolves i events epoll) hw'
  | wait files epollFile maxevents =>
    change w' ∈ (doEpollWaitPass hasPoll files s epollFile maxevents).2.watches epoll at hw'
    rcases @doEpollWaitPass_cases hasPoll s files epollFile maxevents with hsame | ⟨e, hpass⟩
    · rw [hsame] at hw'
      exact hsub (List.Sublist.refl _) hw'
    · rw [hpass] at hw'
      exact forall₂_evolves_mem (epollCollectReadyLocked_evolves e _ true epoll) hw'

/-- until an ADD or a MOD of its file, a watch keeps its file, events, data and flags, and once disabled it stays
disabled -/
theorem sysRun_evolves {epoll : EpollId} {file : FileId} {ops : List EpollOp}
    (hops : ∀ op ∈ ops, ¬Rearms epoll file op) :
    ∀ w' ∈ (sysRun inode hasPoll s ops).watches epoll, w'.file = file → ∃ w ∈ s.watches epoll, WatchEvolves w w' := by
  induction ops generalizing s with
  | nil => exact fun w' hw' _ => ⟨w', hw', WatchEvolves.refl w'⟩
  | cons op ops ih =>
    intro w' hw' hfile
    obtain ⟨w₁, hw₁, hev₁⟩ := ih (fun op' hop' => hops op' (List.mem_cons_of_mem op hop')) w' hw' hfile
    obtain ⟨w₀, hw₀, hev₀⟩ := sysStep_evolves (hops op List.mem_cons_self) w₁ hw₁ (hev₁.file ▸ hfile)
    exact ⟨w₀, hw₀, hev₀.trans hev₁⟩

/-- an ADD or a MOD that returns 0 leaves a watch of the file with the events, data and flags of its event, enabled
and with nothing seen ready -/
theorem epollCtlFile_sets {files : Files} {epollFile : FileId} {c fd : Int} {ev : EpollEvent} {epoll : EpollId}
    {file : FileId} (hc : c = EPOLL_CTL_ADD ∨ c = EPOLL_CTL_MOD) (hepoll : files.handle epollFile = some epoll)
    (hfd : files.fdTable fd = some file) (hok : (epollCtlFile inode files s epollFile c fd (some ev)).1 = 0) :
    ∃ w ∈ (epollCtlFile inode files s epollFile c fd (some ev)).2.watches epoll, w.file = file ∧
      w.events = epollFilterEvents ev.events ∧ w.data = ev.data ∧ w.edgeTriggered = (ev.events &&& EPOLLET != 0) ∧
      w.oneShot = (ev.events &&& EPOLLONESHOT != 0) ∧ w.disabled = false ∧ w.lastReadyEvents = 0 := by
  rcases @epollCtlFile_cases inode files s epollFile c fd (some ev) with ⟨hne, -⟩ |
      ⟨e, target, he, ht, -, ⟨ev', -, hev, -, hnew⟩ | ⟨w, hdel, -, -⟩ | ⟨w, ev', -, hev, hfind, hnew⟩⟩
  · exact absurd hok hne
  all_goals rw [hepoll, Option.some_inj] at he; rw [hfd, Option.some_inj] at ht; subst he ht
  · rw [Option.some_inj] at hev
    subst hev
    rw [hnew, epollCtlAdd_watches, Function.update_self]
    exact ⟨_, List.mem_append_right _ (List.mem_singleton_self _), rfl, rfl, rfl, rfl, rfl, rfl, rfl⟩
  · rcases hc with rfl | rfl <;> exact absurd hdel (by decide)
  · rw [Option.some_inj] at hev
    subst hev
    obtain ⟨hw, hwf⟩ := findWatch_some hfind
    rw [hnew]
    simp only [epollCtlMod, Function.update_self]
    refine ⟨_, List.mem_map.2 ⟨w, hw, if_pos rfl⟩, ?_⟩
    obtain ⟨hfile, hevents⟩ := @epollWatchUpdateEvents_file inode epoll w (epollFilterEvents ev.events) s.pollWait
    exact ⟨hfile.trans hwf, hevents, rfl, rfl, rfl, rfl, rfl⟩

end Frame

/-! ## What a collection reports, and a wake -/

section Reports

variable {inode : FileId → InodeId} {hasPoll : FileId → Bool} {s : EpollSys}

/-- every reported event is the ready events and data of an enabled watch, inside its requested events and the
always-reported ones, aliased -/
theorem epollCollectReadyLocked_reports (epoll : EpollId) (maxevents : Nat) (consume : Bool) :
    ∀ ev ∈ (epollCollectReadyLocked hasPoll s epoll maxevents consume).1,
      ∃ w ∈ s.watches epoll, w.disabled = false ∧ ev = ⟨epollWatchReadyEvents hasPoll s.ready w, w.data⟩ ∧
        ev.events ≠ 0 ∧ ev.events &&& ~~~expandEvents (w.events ||| EPOLL_ALWAYS_EVENTS) = 0 := by
  intro ev hev
  rcases epollCollectReadyLoop_reports (s.watches epoll) [] ev hev with hnil | ⟨w, hw, hd, rfl, hne⟩
  · exact absurd hnil List.not_mem_nil
  · exact ⟨w, hw, hd, rfl, hne, epollWatchReadyEvents_within hasPoll s.ready w⟩

theorem epollCollectReadyLocked_length_le (epoll : EpollId) (maxevents : Nat) (consume : Bool) :
    (epollCollectReadyLocked hasPoll s epoll maxevents consume).1.length ≤ maxevents :=
  epollCollectReadyLoop_length_le _ (Nat.zero_le _)

/-- a level-triggered watch whose file is ready is reported by a collection that reaches it before maxevents -/
theorem epollCollectReadyLocked_level (epoll : EpollId) (maxevents : Nat) (consume : Bool)
    {pre post : List EpollWatch} {w : EpollWatch} (hl : s.watches epoll = pre ++ w :: post)
    (hd : w.disabled = false) (hlt : w.edgeTriggered = false)
    (hreach : (epollCollectReadyLoop hasPoll s.ready maxevents consume pre []).1.length < maxevents)
    (hready : epollWatchReadyEvents hasPoll s.ready w ≠ 0) :
    ⟨epollWatchReadyEvents hasPoll s.ready w, w.data⟩ ∈ (epollCollectReadyLocked hasPoll s epoll maxevents consume).1 := by
  have hvisit := (epollCollectReadyLoop_visit pre post hd hreach).1
  rw [epollCollectWatch_level hlt hready] at hvisit
  unfold epollCollectReadyLocked
  rw [hl]
  exact hvisit.subset (List.mem_append_right _ (List.mem_singleton_self _))

/-- a collection that does not consume changes nothing -/
theorem epollCollectReadyLocked_peek (epoll : EpollId) (maxevents : Nat) :
    (epollCollectReadyLocked hasPoll s epoll maxevents false).2 = s := by
  have hsame : ∀ (ws : List EpollWatch) (events : List EpollEvent),
      (epollCollectReadyLoop hasPoll s.ready maxevents false ws events).2 = ws := by
    intro ws
    induction ws with
    | nil => exact fun _ => rfl
    | cons browse rest ih =>
      intro events
      rw [epollCollectReadyLoop_cons]
      split
      · simp [ih]
      split
      · rfl
      · simp [ih, epollCollectWatch_peek]
  simp [epollCollectReadyLocked, hsame]

/-- a notification of its file's inode with events its wait entry matches wakes a watch: the next scan reports
whatever is ready -/
theorem vfsPollNotifyInode_woken (h : SysInv inode s) {epoll : EpollId} {w : EpollWatch} (hw : w ∈ s.watches epoll)
    {events : UInt32}
    (hmatch : waitQueueEventsMatch (w.events ||| EPOLL_ALWAYS_EVENTS) (vfsPollExpandEvents events) = true) :
    ∀ w' ∈ (vfsPollNotifyInode s (inode w.file) events).watches epoll, w'.file = w.file → w'.lastReadyEvents = 0 := by
  intro w' hw' hfile
  simp only [vfsPollNotifyInode, List.mem_map] at hw'
  obtain ⟨b, hb, rfl⟩ := hw'
  have hbw : b = w := by
    refine List.inj_on_of_nodup_map (h.nodup epoll) hb hw ?_
    rw [← hfile]
    split
    · simp [epollWatchWake]
      split <;> rfl
    · rfl
  subst hbw
  rw [if_pos ⟨h.queued epoll b hw, (h.armed epoll b hw).2 ▸ hmatch⟩]
  simp [epollWatchWake, h.owned epoll b hw]

end Reports

/-! ## The contract -/

/-- what a visit of the collection loop does to one watch -/
structure VisitContract : Prop where
  level : ∀ consume readyEvents (w : EpollWatch), w.edgeTriggered = false → readyEvents ≠ 0 →
    (epollCollectWatch consume readyEvents w).1 = some ⟨readyEvents, w.data⟩
  edge : ∀ readyEvents (w : EpollWatch), w.edgeTriggered = true →
    ((epollCollectWatch true readyEvents w).1.isSome ↔ readyEvents &&& ~~~w.lastReadyEvents ≠ 0) ∧
      (epollCollectWatch true readyEvents w).2.lastReadyEvents = readyEvents
  quiet : ∀ readyEvents (w : EpollWatch), (epollCollectWatch true readyEvents w).1 = none →
    (epollCollectWatch true readyEvents w).2.lastReadyEvents &&& ~~~w.lastReadyEvents = 0
  oneShot : ∀ readyEvents (w : EpollWatch), w.oneShot = true → (epollCollectWatch true readyEvents w).1.isSome →
    (epollCollectWatch true readyEvents w).2.disabled = true
  peek : ∀ readyEvents (w : EpollWatch), (epollCollectWatch false readyEvents w).2 = w

/-- what holds at a state `t` that a run reaches: the watch invariant, what a collection reports and what it does
to the watch it visits, what a wake does, what an ADD or a MOD sets, and that until the next ADD or MOD of its file
a watch keeps all that -/
structure WatchContract (inode : FileId → InodeId) (hasPoll : FileId → Bool) (t : EpollSys) : Prop where
  inv : SysInv inode t
  reports : ∀ epoll maxevents consume, ∀ ev ∈ (epollCollectReadyLocked hasPoll t epoll maxevents consume).1,
    ∃ w ∈ t.watches epoll, w.disabled = false ∧ ev = ⟨epollWatchReadyEvents hasPoll t.ready w, w.data⟩ ∧
      ev.events ≠ 0 ∧ ev.events &&& ~~~expandEvents (w.events ||| EPOLL_ALWAYS_EVENTS) = 0
  atMost : ∀ epoll maxevents consume, (epollCollectReadyLocked hasPoll t epoll maxevents consume).1.length ≤ maxevents
  level : ∀ epoll maxevents consume pre (w : EpollWatch) post, t.watches epoll = pre ++ w :: post →
    w.disabled = false → w.edgeTriggered = false →
    (epollCollectReadyLoop hasPoll t.ready maxevents consume pre []).1.length < maxevents →
    epollWatchReadyEvents hasPoll t.ready w ≠ 0 →
    ⟨epollWatchReadyEvents hasPoll t.ready w, w.data⟩ ∈ (epollCollectReadyLocked hasPoll t epoll maxevents consume).1
  visit : ∀ epoll maxevents consume pre (w : EpollWatch) post, t.watches epoll = pre ++ w :: post →
    w.disabled = false → (epollCollectReadyLoop hasPoll t.ready maxevents consume pre []).1.length < maxevents →
    (epollCollectReadyLoop hasPoll t.ready maxevents consume pre []).1 ++
        (epollCollectWatch consume (epollWatchReadyEvents hasPoll t.ready w) w).1.toList <+:
      (epollCollectReadyLocked hasPoll t epoll maxevents consume).1 ∧
    ((epollCollectReadyLocked hasPoll t epoll maxevents consume).2.watches epoll)[pre.length]? =
      some (epollCollectWatch consume (epollWatchReadyEvents hasPoll t.ready w) w).2
  passOver : ∀ epoll maxevents consume pre (w : EpollWatch) post, t.watches epoll = pre ++ w :: post →
    w.disabled = true →
    epollCollectReadyLoop hasPoll t.ready maxevents consume (t.watches epoll) [] =
      Prod.map id (fun l => l.take pre.length ++ w :: l.drop pre.length)
        (epollCollectReadyLoop hasPoll t.ready maxevents consume (pre ++ post) [])
  peek : ∀ epoll maxevents, (epollCollectReadyLocked hasPoll t epoll maxevents false).2 = t
  woken : ∀ epoll (w : EpollWatch) events, w ∈ t.watches epoll →
    waitQueueEventsMatch (w.events ||| EPOLL_ALWAYS_EVENTS) (vfsPollExpandEvents events) = true →
    ∀ w' ∈ (vfsPollNotifyInode t (inode w.file) events).watches epoll, w'.file = w.file → w'.lastReadyEvents = 0
  sets : ∀ files epollFile c fd (ev : EpollEvent) epoll file, (c = EPOLL_CTL_ADD ∨ c = EPOLL_CTL_MOD) →
    files.handle epollFile = some epoll → files.fdTable fd = some file →
    (epollCtlFile inode files t epollFile c fd (some ev)).1 = 0 →
    ∃ w ∈ (epollCtlFile inode files t epollFile c fd (some ev)).2.watches epoll, w.file = file ∧
      w.events = epollFilterEvents ev.events ∧ w.data = ev.data ∧ w.edgeTriggered = (ev.events &&& EPOLLET != 0) ∧
      w.oneShot = (ev.events &&& EPOLLONESHOT != 0) ∧ w.disabled = false ∧ w.lastReadyEvents = 0
  keeps : ∀ ops epoll file, (∀ op ∈ ops, ¬Rearms epoll file op) →
    ∀ w' ∈ (sysRun inode hasPoll t ops).watches epoll, w'.file = file → ∃ w ∈ t.watches epoll, WatchEvolves w w'

theorem visitContract : VisitContract :=
  ⟨fun _ _ _ hlt hne => epollCollectWatch_level hlt hne, epollCollectWatch_edge, epollCollectWatch_quiet,
    epollCollectWatch_oneShot, epollCollectWatch_peek⟩

theorem watchContract {inode : FileId → InodeId} {hasPoll : FileId → Bool} {t : EpollSys} (ht : SysInv inode t) :
    WatchContract inode hasPoll t where
  inv := ht
  reports := epollCollectReadyLocked_reports
  atMost := epollCollectReadyLocked_length_le
  level epoll maxevents consume _ _ _ hl hd hlt hreach hready :=
    epollCollectReadyLocked_level epoll maxevents consume hl hd hlt hreach hready
  visit epoll maxevents consume pre w post hl hd hreach := by
    unfold epollCollectReadyLocked
    simp only [Function.update_self, hl]
    exact epollCollectReadyLoop_visit pre post hd hreach
  passOver epoll maxevents consume pre w post hl hd := by
    rw [hl]
    exact epollCollectReadyLoop_disabled pre post hd
  peek := epollCollectReadyLocked_peek
  woken _ _ _ hw hmatch := vfsPollNotifyInode_woken ht hw hmatch
  sets _ _ _ _ _ _ _ hc hepoll hfd hok := epollCtlFile_sets hc hepoll hfd hok
  keeps _ _ _ hops := sysRun_evolves hops

/-- for every system that keeps the watch invariant, at every state of every run: the contract of the watches, and
what a visit does -/
theorem epoll_watch_contract {inode : FileId → InodeId} {hasPoll : FileId → Bool} {s : EpollSys}
    (hs : SysInv inode s) (ops : List EpollOp) :
    WatchContract inode hasPoll (sysRun inode hasPoll s ops) ∧ VisitContract :=
  ⟨watchContract (sysRun_inv hs ops), visitContract⟩

/-! ## The concrete runs -/

/-- file 1 is epoll instance 0, and fd 3 is file 0 -/
def watchIn : Files where
  fdTable fd := if fd = 3 then some 0 else none
  handle f := if f = 1 then some 0 else none
  hasPoll _ := true
  fdRef _ := 1

/-- no instance watches anything, and no file is ready -/
def noEpoll : EpollSys := ⟨fun _ => [], fun _ => [], fun _ => [], fun _ => 0⟩

theorem noEpoll_inv (inode : FileId → InodeId) : SysInv inode noEpoll := by
  unfold SysInv
  exact ⟨fun _ => List.nodup_nil, fun _ _ h => absurd h List.not_mem_nil, fun _ _ h => absurd h List.not_mem_nil,
    fun _ _ h => absurd h List.not_mem_nil, fun _ _ h => absurd h List.not_mem_nil, fun _ => List.nodup_nil,
    fun _ _ h => absurd h List.not_mem_nil, fun _ => List.nodup_nil, fun _ _ _ h => absurd h List.not_mem_nil⟩

theorem epoll_watch_contract_watchIn :
    SysInv id noEpoll ∧
      WatchContract id (fun _ => true)
          (sysRun id (fun _ => true) noEpoll [.ctl watchIn 1 EPOLL_CTL_ADD 3 (some ⟨EPOLLIN, 7⟩), .setReady 0 EPOLLIN])
        ∧ VisitContract :=
  ⟨noEpoll_inv id, epoll_watch_contract (noEpoll_inv id) _⟩

/-- a watch of EPOLLIN, with data 7, of a file whose poll answers EPOLLNVAL -/
def nvalSys : EpollSys :=
  sysRun id (fun _ => true) noEpoll [.ctl watchIn 1 EPOLL_CTL_ADD 3 (some ⟨EPOLLIN, 7⟩), .setReady 0 EPOLLNVAL]

/-- an edge-triggered watch of EPOLLIN, with data 7, of a file that has become readable -/
def edgeSys : EpollSys :=
  sysRun id (fun _ => true) noEpoll
    [.ctl watchIn 1 EPOLL_CTL_ADD 3 (some ⟨EPOLLIN ||| EPOLLET, 7⟩), .setReady 0 EPOLLIN]

/-- the watch of EPOLLIN is reported with EPOLLNVAL, which is neither requested nor EPOLLERR or EPOLLHUP; and the
edge-triggered watch, reported once, is not reported again after its file stops and starts being readable again
with no wake notification between two waits -/
theorem epoll_reports_nval_and_misses_unwoken_edge :
    (epollCollectReadyLocked (fun _ => true) nvalSys 0 8 true).1 = [⟨EPOLLNVAL, 7⟩] ∧
      EPOLLNVAL &&& ~~~(EPOLLIN ||| EPOLLRDNORM ||| EPOLLERR ||| EPOLLHUP) ≠ 0 ∧
      (epollCollectReadyLocked (fun _ => true) edgeSys 0 8 true).1 = [⟨EPOLLIN, 7⟩] ∧
      (epollCollectReadyLocked (fun _ => true)
          (sysRun id (fun _ => true) edgeSys [.wait watchIn 1 8, .setReady 0 0, .setReady 0 EPOLLIN]) 0 8 true).1 = [] ∧
      (sysRun id (fun _ => true) edgeSys [.wait watchIn 1 8, .setReady 0 0, .setReady 0 EPOLLIN]).ready 0 = EPOLLIN := by
  refine ⟨by decide +kernel, by decide, by decide +kernel, by decide +kernel, by decide +kernel⟩

end Naos.Epoll.Watch
