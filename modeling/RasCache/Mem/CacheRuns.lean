import RasCache.Mem.Fetching

/-!
# The cache over whole runs

What a cache guarantees in every state it can reach, whatever it receives: lines
are unique, a miss that was sent below is neither lost nor sent again before its
response, and events about other lines leave a line alone. All that a run of such
events does to the block of a line is to evict it, once, while the line has no
MSHR, through the write buffer (`Aside`).
-/
namespace RasCache.Mem.Cache

open Outcomes

variable {R : Type} {rp : ReplacementPolicy R} {cfg : CacheParams} {cache after : Cache R}
  {key : LineKey} {e : CacheEvent} {sent : Sent} {events : List CacheEvent}

/-! ### What every reachable cache keeps -/

/-- What every handler keeps holds along every run. -/
theorem run_keeps (Inv : Cache R → Prop) {ok : Cache R → CacheEvent → Prop}
    (keeps : ∀ s e t sent, Inv s → ok s e → s.handle rp cfg e = .ok (t, sent) → Inv t)
    (start : Inv cache) (along : Runs.Along (step rp cfg) ok cache events)
    (ran : Runs.run (step rp cfg) cache events = some after) : Inv after := by
  refine Runs.run_invariant (fun s e t here meets taken => ?_) cache after events start along ran
  obtain ⟨sent, handled⟩ := step_some_iff.mp taken
  exact keeps s e t sent here meets handled

theorem reached_kept (repl : R)
    (reached : Runs.run (step rp cfg) (empty repl) events = some cache) :
    cache.Formed rp cfg ∧ cache.Queues cfg := by
  refine run_keeps (fun s => s.Formed rp cfg ∧ s.Queues cfg)
    (fun s e t sent kept _ handled => ?_)
    ⟨empty_formed repl, empty_queues repl⟩ (Runs.along_trivial _ _) reached
  exact ⟨kept.1.handle handled, handle_queues kept.2 handled⟩

/-- In every reachable cache a line is in one place of the tag array, where the
lookup finds it, and has at most one MSHR that requests and snoops can see. The
targets of an MSHR, snoops apart, are requests for its line, and a cacheable packet
in the write buffer asks for no response. -/
theorem reached_wellFormed (repl : R)
    (reached : Runs.run (step rp cfg) (empty repl) events = some cache) :
    (∀ key place, (cache.tags.blk place).holds key = true ↔
        cache.tags.findBlock rp key = some place) ∧ (∀ key, ∀ entry ∈ cache.mshrs,
        entry.mshr.seen key = true ↔ cache.findMshr key = some entry) ∧
      (∀ entry ∈ cache.mshrs, ∀ t ∈ entry.mshr.waiting, t.source ≠ .fromSnoop →
        t.pkt.isRequest = true ∧ t.pkt.line cfg.blkSize = entry.mshr.key) ∧
      ∀ pkt ∈ cache.writeBuffer, pkt.req.flags.uncacheable = true ∨ pkt.needsResponse = false := by
  obtain ⟨formed, queues⟩ := reached_kept repl reached
  refine ⟨fun key place => ⟨formed.sound.findBlock key place, Tags.findBlock_holds⟩,
    fun key entry mem => ?_, fun entry mem t waits request => ?_, queues.mute⟩
  · exact ⟨findMshr_of_seen formed.single formed.ordered mem, findMshr_seen⟩
  · have suits := queues.fitted.fits entry mem t waits request
    exact ⟨suits.request, suits.line⟩

/-- The cache after a load that missed and was sent below. -/
abbrev sentLoad : Option (Cache Unit) :=
  Runs.run (step oneBlock (.guarded 1)) (empty ())
    [.recvTimingReq (.noFillLoad 0) 0 fun _ => false, .sendMSHRQueuePacket 0 false fun _ => false]

def otherLoad : CacheEvent := .recvTimingReq (.noFillLoad 64) 1 fun _ => false

theorem run_sentLoad : ∃ cache after entry, sentLoad = some cache ∧
    entry ∈ cache.mshrs ∧ entry.mshr.inService = true ∧
      Runs.run (step oneBlock (.guarded 1)) cache [otherLoad] = some after := by
  obtain ⟨cache, ran, busy, more⟩ : ∃ cache, sentLoad = some cache ∧
      (cache.mshrs.any fun entry => entry.mshr.inService) = true ∧
        (Runs.run (step oneBlock (.guarded 1)) cache [otherLoad]).isSome = true :=
    Runs.exists_run (by decide +kernel)
  obtain ⟨entry, mem, busy⟩ := List.any_eq_true.mp busy
  obtain ⟨after, more⟩ := Option.isSome_iff_exists.mp more
  exact ⟨cache, after, entry, ran, mem, busy, more⟩

theorem reached_wellFormed_sentLoad : ∃ cache entry, sentLoad = some cache ∧
    entry ∈ cache.mshrs ∧ (∀ key place, (cache.tags.blk place).holds key = true ↔
      cache.tags.findBlock oneBlock key = some place) ∧
    (∀ key, entry.mshr.seen key = true ↔ cache.findMshr key = some entry) ∧
    ∀ t ∈ entry.mshr.waiting, t.source ≠ .fromSnoop →
      t.pkt.isRequest = true ∧ t.pkt.line 64 = entry.mshr.key := by
  obtain ⟨cache, _, entry, ran, mem, _⟩ := run_sentLoad
  obtain ⟨places, seen, targets, _⟩ := reached_wellFormed () ran
  exact ⟨cache, entry, ran, mem, places, fun key => seen key entry mem, targets entry mem⟩

/-! ### Requests sent below -/

/-- The MSHR is there, in service, with its line. -/
def Waits (entry : MshrEntry) (cache : Cache R) : Prop :=
  ∃ now ∈ cache.mshrs, now.id = entry.id ∧ now.mshr.inService = true ∧
    SameLine entry.mshr now.mshr

variable {before : List CacheEvent} {entry : MshrEntry} {second first third : Cache R}

theorem Waits.handle (s : Cache R) (e : CacheEvent) (t : Cache R) (sent : Sent)
    (here : s.Ordered ∧ Waits entry s) (other : responds e ≠ some entry.id)
    (handled : s.handle rp cfg e = .ok (t, sent)) : t.Ordered ∧ Waits entry t := by
  obtain ⟨ordered, now, waits, named, busy, line⟩ := here
  refine ⟨handle_ordered ordered handled, ?_⟩
  obtain ⟨next, waits, again, busy, line'⟩ :=
    handle_inService ordered handled waits busy (named.symm ▸ other)
  exact ⟨next, waits, again.trans named, busy, line.trans line'⟩

/-- A miss that was sent below waits, on its line, until its response comes, and is
not sent a second time. -/
theorem sent_miss_waits (repl : R)
    (reached : Runs.run (step rp cfg) (empty repl) before = some cache)
    (mem : entry ∈ cache.mshrs) (busy : entry.mshr.inService = true)
    (unanswered : ∀ e ∈ events, responds e ≠ some entry.id)
    (ran : Runs.run (step rp cfg) cache events = some after) :
    (∃ mshr, after.findId entry.id = some ⟨entry.id, mshr⟩ ∧ mshr.inService = true ∧
        mshr.key = entry.mshr.key) ∧
      ∀ pending above, after.handle rp cfg (.sendMSHRQueuePacket entry.id pending above) =
        .error .assertion := by
  have start := (reached_kept repl reached).1.ordered
  obtain ⟨ordered, ⟨_, mshr⟩, waits, rfl, sent, line⟩ :=
    run_keeps (fun s => s.Ordered ∧ Waits entry s) Waits.handle
      ⟨start, entry, mem, rfl, busy, rfl, rfl⟩ (Runs.along_of_forall _ _ unanswered) ran
  have found := ordered.findId ⟨entry.id, mshr⟩ waits
  refine ⟨⟨mshr, found, sent, line.key⟩, fun pending above => ?_⟩
  have again : mshr.inService = true := sent
  simp [handle, sendMSHRQueuePacket, found, orFail, again, bind, Except.bind]

theorem sent_miss_waits_sentLoad : ∃ cache after id, sentLoad = some cache ∧
    Runs.run (step oneBlock (.guarded 1)) cache [otherLoad] = some after ∧
      after.handle oneBlock (.guarded 1) (.sendMSHRQueuePacket id false fun _ => false) =
        .error .assertion := by
  obtain ⟨cache, after, entry, ran, mem, busy, more⟩ := run_sentLoad
  have waits := sent_miss_waits () ran mem busy (by simp [otherLoad, responds]) more
  exact ⟨cache, after, entry.id, ran, more, waits.2 false _⟩

/-! ### Events about other lines -/

/-- The event is about other lines and sends no write of the line. -/
def Apart (cfg : CacheParams) (key : LineKey) (cache : Cache R) (e : CacheEvent) : Prop :=
  cache.Elsewhere cfg key e ∧ ∀ i pkt, e = .sendWriteQueuePacket i →
    cache.writeBuffer[i]? = some pkt → seen cfg key pkt = false

theorem BlocksKept.aside (kept : BlocksKept cache after) : Aside rp cfg key cache after := by
  refine .kept ?_ ?_
  · rw [lineBlk, lineBlk, kept.tags]
  · rw [writesOf, writesOf, kept.writeBuffer]

theorem filter_eraseIdx_unseen {α : Type} {p : α → Bool} {a : α} {list : List α} {i : Nat}
    (found : list[i]? = some a) (unseen : p a = false) :
    (list.eraseIdx i).filter p = list.filter p := by
  obtain ⟨inside, rfl⟩ := List.getElem?_eq_some_iff.mp found
  conv_rhs => rw [← List.take_append_drop i list, List.drop_eq_getElem_cons inside]
  rw [List.eraseIdx_eq_take_drop_succ, List.filter_append, List.filter_append,
    List.filter_cons_of_neg (by simp [unseen])]

theorem handle_aside (formed : cache.Formed rp cfg) (apart : Apart cfg key cache e)
    (handled : cache.handle rp cfg e = .ok (after, sent)) : Aside rp cfg key cache after := by
  obtain ⟨other, unsent⟩ := apart
  cases e with
  | recvTimingReq => exact recvTimingReq_aside formed.sound other handled
  | recvTimingResp =>
    obtain ⟨⟨_, _⟩, ret, same⟩ := map_ok_iff.mp handled
    cases same
    exact recvTimingResp_aside formed.sound other.1 ret
  | sendMSHRQueuePacket =>
    exact sendMSHRQueuePacket_aside key formed.sound other handled
  | sendWriteQueuePacket i =>
    obtain ⟨pkt, found, ret⟩ := bind_ok_iff.mp handled
    cases ret
    rw [orFail_ok_iff] at found
    exact .kept rfl (filter_eraseIdx_unseen found (unsent i pkt rfl found))
  | recvPfAck =>
    obtain ⟨_, ret, same⟩ := map_ok_iff.mp handled
    cases same
    exact (recvPfAck_blocks ret).aside
  | issuePrefetch line =>
    obtain rfl : _ = after := congrArg Prod.fst (Except.ok.inj handled)
    exact (issuePrefetch_blocks cache line).aside
  | squashPrefetch =>
    obtain ⟨_, ret, same⟩ := map_ok_iff.mp handled
    cases same
    exact (squashPrefetch_blocks ret).aside
  | recvTimingSnoopReq =>
    obtain ⟨_, ret, same⟩ := map_ok_iff.mp handled
    cases same
    obtain ⟨blk, writes⟩ := recvTimingSnoopReq_kept other ret
    exact .kept blk writes
  | setDownstreamPending =>
    cases handled
    exact .kept rfl rfl

theorem LineKept.trans (one : LineKept key first second) (two : LineKept key second third) :
    LineKept key first third where
  none absent := two.none (one.none absent)
  some id mshr found := by
    obtain ⟨_, found⟩ := one.some id mshr found
    obtain ⟨pending, found⟩ := two.some id _ found
    exact ⟨pending, found⟩

/-- A line that was evicted stays away, so a run evicts it once. -/
theorem Aside.trans (one : Aside rp cfg key first second) (kept : LineKept key first second)
    (two : Aside rp cfg key second third) : Aside rp cfg key first third := by
  cases one with
  | kept blk writes =>
    cases two with
    | kept blk' writes' => exact .kept (blk'.trans blk) (writes'.trans writes)
    | evicted gone above held idle absent writes' =>
      refine .evicted gone above (blk.symm.trans held) ?_ absent (writes ▸ writes')
      cases found : first.findMshr key with
      | none => rfl
      | some entry =>
        obtain ⟨_, found⟩ := kept.some entry.id entry.mshr found
        rw [found] at idle
        cases idle
  | evicted gone above held idle absent writes =>
    cases two with
    | kept blk' writes' =>
      exact .evicted gone above held idle (blk'.trans absent) (writes'.trans writes)
    | evicted _ _ held' =>
      rw [absent] at held'
      cases held'

/-- From every reachable state, over every run of events about other lines: the
MSHR of a line stays as it is, and its block and its writes do, unless the block
is evicted through the write buffer, which happens only to a line without MSHR. -/
theorem other_lines_apart (repl : R)
    (reached : Runs.run (step rp cfg) (empty repl) before = some cache)
    (apart : Runs.Along (step rp cfg) (Apart cfg key) cache events)
    (ran : Runs.run (step rp cfg) cache events = some after) :
    LineKept key cache after ∧ Aside rp cfg key cache after := by
  have formed := (reached_kept repl reached).1
  refine (run_keeps (fun s => s.Formed rp cfg ∧ LineKept key cache s ∧
    Aside rp cfg key cache s) (fun s e t _ here apart handled => ?_)
    ⟨formed, .of_eq rfl, .kept rfl rfl⟩ apart ran).2
  obtain ⟨formed, kept, aside⟩ := here
  have next := handle_lineKept formed.ordered apart.1 handled
  exact ⟨formed.handle handled, kept.trans next,
    aside.trans kept (handle_aside formed apart handled)⟩

theorem other_lines_apart_sentLoad : ∃ cache after, sentLoad = some cache ∧
    Runs.run (step oneBlock (.guarded 1)) cache [otherLoad] = some after ∧
      LineKept ⟨0, false, 0⟩ cache after ∧
      Aside oneBlock (.guarded 1) ⟨0, false, 0⟩ cache after := by
  obtain ⟨cache, after, _, ran, _, _, more⟩ := run_sentLoad
  have other : (Packet.noFillLoad 64).line 64 ≠ ⟨0, false, 0⟩ := by decide
  have apart : Runs.Along (step oneBlock (.guarded 1)) (Apart (.guarded 1) ⟨0, false, 0⟩) cache
      [otherLoad] := ⟨⟨other, by rintro _ _ ⟨⟩⟩, fun _ _ => trivial⟩
  exact ⟨cache, after, ran, more, other_lines_apart () ran apart more⟩

end RasCache.Mem.Cache
