import SovaVerified.Dashboard.LogViewer

/-!
# What the log viewer shows

While a stream is live, the viewer has been sent the lines from the subscription on, without a hole. Its content is
the snapshot and what came behind the overlap, so it is the output, each line once, exactly when every line that the
snapshot shares with the stream had arrived before the snapshot did.
-/

namespace Dashboard.LogViewer

/-! ## Lines in events -/

theorem escaped_cons (c : Char) (t : Text) :
    escaped (c :: t) = (if c = '\\' then ['\\', '\\'] else if c = '\n' then ['\\', 'n'] else
      if c = '\r' then ['\\', 'r'] else [c]) ++ escaped t := by
  unfold escaped replaceChar
  rw [List.flatMap_cons, List.flatMap_append, List.flatMap_append]
  congr 1
  by_cases hbackslash : c = '\\'
  · rw [hbackslash]
    rfl
  by_cases hnewline : c = '\n'
  · rw [hnewline]
    rfl
  by_cases hreturn : c = '\r'
  · rw [hreturn]
    rfl
  simp [hbackslash, hnewline, hreturn]

theorem unescaped_cons {c : Char} (hc : c ≠ '\\') (t : Text) : unescaped (c :: t) = c :: unescaped t := by
  rw [unescaped] <;> simp_all

theorem unescaped_escaped (line : Text) : unescaped (escaped line) = line := by
  induction line with
  | nil => rfl
  | cons c t ih =>
    rw [escaped_cons]
    split_ifs with hbackslash hnewline hreturn
    · rw [hbackslash, List.cons_append, List.cons_append, List.nil_append, unescaped, ih]
    · rw [hnewline, List.cons_append, List.cons_append, List.nil_append, unescaped, ih]
    · rw [hreturn, List.cons_append, List.cons_append, List.nil_append, unescaped, ih]
    · rw [List.singleton_append, unescaped_cons hbackslash, ih]

/-! ## The buffer -/

/-- The lines that the buffer holds once `n` lines are written. -/
def window (written : List Text) (n : Nat) : List Text := (written.take n).drop (n - maxOutputLines)

theorem writtenLines_append (as bs : List LogAction) :
    writtenLines (as ++ bs) = writtenLines as ++ writtenLines bs := List.filterMap_append

theorem window_append {written : List Text} {n : Nat} (h : n ≤ written.length) (more : List Text) :
    window (written ++ more) n = window written n := by
  rw [window, List.take_append_of_le_length h, window]

/-- What the agent keeps is told by the lines that it has written. -/
structure Buffers (written : List Text) (s : LogSystem) : Prop where
  seq : s.outputSeq = written.length
  lines : s.outputLines = window written written.length

theorem window_concat (written : List Text) (line : Text) :
    (if (window written written.length).length < maxOutputLines then window written written.length
      else (window written written.length).tail) ++ [line] =
      window (written ++ [line]) (written ++ [line]).length := by
  unfold window
  rw [List.take_length, List.take_length, List.length_drop, List.length_append, List.length_singleton]
  split_ifs with hroom
  · rw [Nat.sub_eq_zero_of_le (by omega : written.length ≤ maxOutputLines),
      Nat.sub_eq_zero_of_le (by omega : written.length + 1 ≤ maxOutputLines), List.drop_zero, List.drop_zero]
  · have hfull : maxOutputLines ≤ written.length := by omega
    have hpos : 0 < maxOutputLines := Nat.zero_lt_succ _
    rw [List.tail_drop, show written.length + 1 - maxOutputLines = written.length - maxOutputLines + 1 by omega,
      List.drop_append_of_le_length (by omega)]

@[simp]
theorem bufferLine_outputLines (s : LogSystem) (line : Text) : (s.bufferLine line).outputLines =
    (if s.outputLines.length < maxOutputLines then s.outputLines else s.outputLines.tail) ++ [line] := rfl

@[simp]
theorem bufferLine_outputSeq (s : LogSystem) (line : Text) : (s.bufferLine line).outputSeq = s.outputSeq + 1 := rfl

@[simp]
theorem bufferLine_content (s : LogSystem) (line : Text) : (s.bufferLine line).content = s.content := rfl

@[simp]
theorem bufferLine_logCursor (s : LogSystem) (line : Text) : (s.bufferLine line).logCursor = s.logCursor := rfl

theorem bufferLine_polls (s : LogSystem) (line : Text) :
    (s.bufferLine line).transport.polls = s.transport.polls := by
  unfold LogSystem.bufferLine
  cases s.transport <;> rfl

theorem bufferLine_streams (s : LogSystem) (line : Text) :
    (s.bufferLine line).transport.streams = s.transport.streams := by
  unfold LogSystem.bufferLine
  cases s.transport <;> rfl

theorem bufferLine_stream {s : LogSystem} {line : Text} {stream : LogStream}
    (h : (s.bufferLine line).transport = .sse stream) :
    ∃ before, s.transport = .sse before ∧ stream = before.publish line := by
  unfold LogSystem.bufferLine at h
  cases htransport : s.transport with
  | sse before =>
    rw [htransport] at h
    exact ⟨before, rfl, (Transport.sse.inj h).symm⟩
  | _ =>
    rw [htransport] at h
    cases h

/-! ## The stream -/

/-- The lines on their way, up to the first gap. -/
def beforeGap : List StreamEvent → List Text
  | [] => []
  | .output data :: events => unescaped data :: beforeGap events
  | .gap :: _ => []
  | .connected _ :: events => beforeGap events
  | .done :: events => beforeGap events

theorem beforeGap_append {events : List StreamEvent} (h : .gap ∉ events) (more : List StreamEvent) :
    beforeGap (events ++ more) = beforeGap events ++ beforeGap more := by
  induction events with
  | nil => rfl
  | cons event events ih =>
    have hrest := ih fun hmem => h (List.mem_cons_of_mem _ hmem)
    cases event with
    | gap => exact absurd List.mem_cons_self h
    | output data => exact congrArg (unescaped data :: ·) hrest
    | connected seq => exact hrest
    | done => exact hrest

theorem beforeGap_append_of_mem {events : List StreamEvent} (h : .gap ∈ events) (more : List StreamEvent) :
    beforeGap (events ++ more) = beforeGap events := by
  induction events with
  | nil => cases h
  | cons event events ih =>
    cases event with
    | gap => rfl
    | output data =>
      have hmem := (List.mem_cons.mp h).resolve_left StreamEvent.noConfusion
      exact congrArg (unescaped data :: ·) (ih hmem)
    | connected seq => exact ih ((List.mem_cons.mp h).resolve_left StreamEvent.noConfusion)
    | done => exact ih ((List.mem_cons.mp h).resolve_left StreamEvent.noConfusion)

theorem beforeGap_append_of_nil {more : List StreamEvent} (h : beforeGap more = []) (events : List StreamEvent) :
    beforeGap (events ++ more) = beforeGap events := by
  by_cases hgap : .gap ∈ events
  · exact beforeGap_append_of_mem hgap more
  · rw [beforeGap_append hgap, h, List.append_nil]

theorem beforeGap_prefix_append (events more : List StreamEvent) :
    beforeGap events <+: beforeGap (events ++ more) := by
  by_cases hgap : .gap ∈ events
  · exact ⟨[], (List.append_nil _).trans (beforeGap_append_of_mem hgap more).symm⟩
  · rw [beforeGap_append hgap]
    exact List.prefix_append _ _

/-- The events on their way, and the ones that are going to be sent. -/
def LogStream.coming (stream : LogStream) : List StreamEvent :=
  stream.sent ++
    if stream.subscribed then
      (if stream.overflowed then [.gap] else []) ++ stream.queue.map fun line => .output (escaped line)
    else []

/-- The stream of a subscription at the line `c`, when the lines `delivered` have arrived. -/
structure Flows (written : List Text) (c : Nat) (delivered : List Text) (stream : LogStream) : Prop where
  bound : c ≤ written.length
  lines : delivered ++ beforeGap stream.coming <+: written.drop c
  complete : .gap ∉ stream.coming → stream.subscribed = true →
    delivered ++ beforeGap stream.coming = written.drop c
  -- a queue that has dropped a line is full until its next line is sent
  full : stream.overflowed = true → queueMax ≤ stream.queue.length

variable {written delivered : List Text} {c : Nat} {stream stream' : LogStream}

theorem Flows.arrived (h : Flows written c delivered stream) : delivered <+: written.drop c :=
  (List.prefix_append _ _).trans h.lines

theorem Flows.of_coming (h : Flows written c delivered stream) (hcoming : stream'.coming = stream.coming)
    (hsubscribed : stream'.subscribed = stream.subscribed)
    (hfull : stream'.overflowed = true → queueMax ≤ stream'.queue.length) : Flows written c delivered stream' := by
  refine ⟨h.bound, ?_, ?_, hfull⟩
  · rw [hcoming]
    exact h.lines
  · rw [hcoming, hsubscribed]
    exact h.complete

/-- The server or the viewer ends the stream, and nothing of the queue is sent any more. -/
theorem Flows.unsubscribe (h : Flows written c delivered stream) {events : List StreamEvent}
    (hcoming : stream'.coming = events) (hlines : beforeGap events <+: beforeGap stream.coming)
    (hsubscribed : stream'.subscribed = false)
    (hfull : stream'.overflowed = true → queueMax ≤ stream'.queue.length) : Flows written c delivered stream' := by
  refine ⟨h.bound, ?_, ?_, hfull⟩
  · rw [hcoming]
    exact ((List.prefix_append_right_inj _).mpr hlines).trans h.lines
  · rw [hsubscribed]
    exact fun _ => nofun

theorem Flows.publish (h : Flows written c delivered stream) (line : Text) :
    Flows (written ++ [line]) c delivered (stream.publish line) := by
  have hdrop : (written ++ [line]).drop c = written.drop c ++ [line] := List.drop_append_of_le_length h.bound
  have hbound : c ≤ (written ++ [line]).length := by
    rw [List.length_append]
    exact Nat.le_add_right_of_le h.bound
  have hlines : delivered ++ beforeGap stream.coming <+: (written ++ [line]).drop c := by
    rw [hdrop]
    exact h.lines.trans (List.prefix_append _ _)
  unfold LogStream.publish
  split_ifs with hended hroom
  · refine ⟨hbound, hlines, fun _ hopen => ?_, h.full⟩
    rw [hopen] at hended
    cases hended
  · have hopen : stream.subscribed = true := by simpa using hended
    have hoverflowed : stream.overflowed = false :=
      Bool.eq_false_iff.mpr fun hfull => Nat.not_le_of_lt hroom (h.full hfull)
    have hcoming : { stream with queue := stream.queue ++ [line] }.coming =
        stream.coming ++ [.output (escaped line)] := by
      simp [LogStream.coming, hopen]
    have hfull : stream.overflowed = true → queueMax ≤ (stream.queue ++ [line]).length := by
      rw [hoverflowed]
      exact nofun
    by_cases hgap : .gap ∈ stream.coming
    · refine ⟨hbound, ?_, fun hnot => absurd ?_ hnot, hfull⟩
      · rw [hcoming, beforeGap_append_of_mem hgap]
        exact hlines
      · rw [hcoming]
        exact List.mem_append_left _ hgap
    · have hwhole : delivered ++ beforeGap { stream with queue := stream.queue ++ [line] }.coming =
          (written ++ [line]).drop c := by
        rw [hcoming, beforeGap_append hgap, hdrop, ← h.complete hgap hopen, beforeGap, beforeGap, unescaped_escaped,
          List.append_assoc]
      exact ⟨hbound, ⟨[], (List.append_nil _).trans hwhole⟩, fun _ _ => hwhole, hfull⟩
  · have hopen : stream.subscribed = true := by simpa using hended
    have hcoming : ∃ more, { stream with overflowed := true }.coming = stream.sent ++ .gap :: more :=
      ⟨_, by rw [LogStream.coming, if_pos hopen, if_pos rfl]; rfl⟩
    obtain ⟨more, hmore⟩ := hcoming
    refine ⟨hbound, ?_, fun hnot => absurd ?_ hnot, fun _ => Nat.le_of_not_lt hroom⟩
    · rw [hmore, beforeGap_append_of_nil rfl]
      exact ((List.prefix_append_right_inj _).mpr (beforeGap_prefix_append _ _)).trans hlines
    · rw [hmore]
      exact List.mem_append_right _ List.mem_cons_self

/-- Only the first event of a stream tells where it begins. -/
def Unconnected (events : List StreamEvent) : Prop := ∀ seq, .connected seq ∉ events

/-- What the server does with a stream while the agent may write. -/
structure Sends (written written' : List Text) (stream stream' : LogStream) : Prop where
  grows : written <+: written'
  connectedSeq : stream'.connectedSeq = stream.connectedSeq
  held : stream'.held = stream.held
  holding : stream'.holding = stream.holding
  snapshot : stream'.snapshot = stream.snapshot
  sent : ∃ more, stream'.sent = stream.sent ++ more ∧ Unconnected more
  flows : ∀ c delivered, Flows written c delivered stream → Flows written' c delivered stream'

theorem sent_nothing (events : List StreamEvent) : ∃ more, events = events ++ more ∧ Unconnected more :=
  ⟨[], (List.append_nil _).symm, fun _ => List.not_mem_nil⟩

theorem sends_publish (written : List Text) (stream : LogStream) (line : Text) :
    Sends written (written ++ [line]) stream (stream.publish line) := by
  have hflows := fun c delivered (hflow : Flows written c delivered stream) => hflow.publish line
  unfold LogStream.publish at hflows ⊢
  split_ifs at hflows ⊢ <;> exact ⟨List.prefix_append _ _, rfl, rfl, rfl, rfl, sent_nothing _, hflows⟩

theorem sends_sendLine (written : List Text) (h : stream.sendLine = some stream') :
    Sends written written stream stream' := by
  unfold LogStream.sendLine at h
  split at h
  · cases h
  · next line queue hqueue =>
    by_cases hblocked : (!stream.subscribed || stream.checking) = true
    · rw [if_pos hblocked] at h
      cases h
    rw [if_neg hblocked] at h
    obtain rfl := Option.some.inj h
    have hopen : stream.subscribed = true := by
      by_contra hnot
      exact hblocked (by simp [hnot])
    refine ⟨List.prefix_rfl, rfl, rfl, rfl, rfl, ⟨_, rfl, fun seq hmem => ?_⟩, fun c delivered hflow => ?_⟩
    · split_ifs at hmem <;> simp at hmem
    · exact hflow.of_coming (by simp [LogStream.coming, hopen, hqueue]) rfl nofun

theorem sends_waitTimeout (written : List Text) (h : stream.waitTimeout = some stream') :
    Sends written written stream stream' := by
  unfold LogStream.waitTimeout at h
  split_ifs at h
  obtain rfl := Option.some.inj h
  exact ⟨List.prefix_rfl, rfl, rfl, rfl, rfl, sent_nothing _,
    fun c delivered hflow => hflow.of_coming rfl rfl hflow.full⟩

theorem sends_checkRunTerminal (written : List Text) {terminal : Bool}
    (h : stream.checkRunTerminal terminal = some stream') : Sends written written stream stream' := by
  unfold LogStream.checkRunTerminal at h
  split_ifs at h
  · obtain rfl := Option.some.inj h
    refine ⟨List.prefix_rfl, rfl, rfl, rfl, rfl, ⟨[.done], rfl, fun seq hmem => by simp at hmem⟩,
      fun c delivered hflow => hflow.unsubscribe (List.append_nil _) ?_ rfl hflow.full⟩
    rw [beforeGap_append_of_nil rfl]
    exact beforeGap_prefix_append _ _
  · obtain rfl := Option.some.inj h
    exact ⟨List.prefix_rfl, rfl, rfl, rfl, rfl, sent_nothing _,
      fun c delivered hflow => hflow.of_coming rfl rfl hflow.full⟩

/-! ## The viewer -/

/-- What is known of the stream of the viewer. -/
inductive Streams (written : List Text) (stream : LogStream) : Prop where
  | waiting (c : Nat) (rest : List StreamEvent) (hsent : stream.sent = .connected c :: rest)
      (hrest : Unconnected rest) (hseq : stream.connectedSeq = none) (hheld : stream.held = [])
      (hholding : stream.holding = true) (hsnapshot : stream.snapshot = none)
      (hflow : Flows written c [] stream)
  | holding (c : Nat) (hseq : stream.connectedSeq = some c) (hsent : Unconnected stream.sent)
      (hholding : stream.holding = true) (hflow : Flows written c stream.held stream)
      (hsnapshot : ∀ lines seq, stream.snapshot = some (lines, seq) →
        c ≤ seq ∧ seq ≤ written.length ∧ lines = window written seq)
  | live (hholding : stream.holding = false) (hsnapshot : stream.snapshot = none)

theorem Streams.sends {written' : List Text} (h : Streams written stream)
    (hsends : Sends written written' stream stream') : Streams written' stream' := by
  obtain ⟨more, hmore, hunconnected⟩ := hsends.sent
  obtain ⟨lines, rfl⟩ := hsends.grows
  cases h with
  | waiting c rest hsent hrest hseq hheld hholding hsnapshot hflow =>
    refine .waiting c (rest ++ more) (by rw [hmore, hsent]; rfl) (fun seq hmem => ?_) (hsends.connectedSeq.trans hseq)
      (hsends.held.trans hheld) (hsends.holding.trans hholding) (hsends.snapshot.trans hsnapshot)
      (hsends.flows _ _ hflow)
    exact (List.mem_append.mp hmem).elim (hrest seq) (hunconnected seq)
  | holding c hseq hsent hholding hflow hsnapshot =>
    refine .holding c (hsends.connectedSeq.trans hseq) (fun seq hmem => ?_) (hsends.holding.trans hholding) ?_
      fun lines' seq hanswer => ?_
    · rw [hmore] at hmem
      exact (List.mem_append.mp hmem).elim (hsent seq) (hunconnected seq)
    · rw [hsends.held]
      exact hsends.flows _ _ hflow
    · rw [hsends.snapshot] at hanswer
      obtain ⟨hfrom, hto, hwindow⟩ := hsnapshot lines' seq hanswer
      refine ⟨hfrom, ?_, ?_⟩
      · rw [List.length_append]
        exact Nat.le_add_right_of_le hto
      · rw [window_append hto]
        exact hwindow
  | live hholding hsnapshot => exact .live (hsends.holding.trans hholding) (hsends.snapshot.trans hsnapshot)

/-- The output that has been polled, as long as the buffer has dropped no line. -/
def PollsAt (written : List Text) (s : LogSystem) : Prop :=
  written.length ≤ maxOutputLines → s.content <+: written ∧ s.logCursor = s.content.length

/-- An answer to a poll. -/
structure Answers (written : List Text) (cursor : Nat) (lines : List Text) (total : Nat) : Prop where
  total : total = cursor + lines.length
  short : lines.length ≤ maxOutputLines - cursor
  next : written.length ≤ maxOutputLines → lines <+: written.drop cursor

/-- The system after the agent has written some lines. -/
structure Tracks (written : List Text) (s : LogSystem) : Prop where
  buffers : Buffers written s
  stream : ∀ stream, s.transport = .sse stream → Streams written stream
  polls : s.transport.polls = true → PollsAt written s
  answer : ∀ lines total, s.transport = .poll (some (lines, total)) → Answers written s.logCursor lines total

theorem streams_resume (written : List Text) : Streams written { sent := [.connected written.length] } :=
  .waiting written.length [] rfl (fun _ => List.not_mem_nil) rfl rfl rfl rfl
    ⟨Nat.le_refl _, by simp [LogStream.coming, beforeGap], fun _ _ => by simp [LogStream.coming, beforeGap], nofun⟩

/-- An event that arrives and is no gap. -/
theorem Flows.next {event : StreamEvent} (h : Flows written c delivered stream)
    (hcoming : stream.coming = event :: stream'.coming) (hgap : event ≠ .gap)
    (hsubscribed : stream'.subscribed = stream.subscribed)
    (hfull : stream'.overflowed = true → queueMax ≤ stream'.queue.length) :
    Flows written c (delivered ++ beforeGap [event]) stream' := by
  have hbefore : delivered ++ beforeGap [event] ++ beforeGap stream'.coming =
      delivered ++ beforeGap stream.coming := by
    rw [hcoming, List.append_assoc]
    cases event with
    | gap => exact absurd rfl hgap
    | _ => rfl
  refine ⟨h.bound, ?_, fun hnot hopen => ?_, hfull⟩
  · rw [hbefore]
    exact h.lines
  · rw [hbefore]
    refine h.complete (fun hmem => ?_) (hsubscribed.symm.trans hopen)
    rw [hcoming] at hmem
    exact (List.mem_cons.mp hmem).elim (fun heq => hgap heq.symm) hnot

theorem coming_cons {event : StreamEvent} {rest : List StreamEvent} (h : stream.sent = event :: rest) :
    stream.coming = event :: { stream with sent := rest }.coming := by
  rw [LogStream.coming, h]
  rfl

section

variable {s s' : LogSystem} {rest : List StreamEvent} {data : Text}

/-- Behind the snapshot an event shows its line, and the stream goes on with the rest, if it does. -/
theorem receive_live (hholding : stream.holding = false) (hstep : s.receiveEvent stream = some s')
    (hstreams : s'.transport.streams = true) : ∃ event rest, stream.sent = event :: rest ∧ event ≠ .gap ∧
      s'.content = s.content ++ beforeGap [event] ∧
      ∀ stream', s'.transport = .sse stream' → stream' = { stream with sent := rest } := by
  cases hsent : stream.sent with
  | nil => simp [LogSystem.receiveEvent, hsent] at hstep
  | cons event rest =>
    refine ⟨event, rest, rfl, ?_⟩
    have hidle : ¬stream.holding = true := by rw [hholding]; exact Bool.false_ne_true
    simp only [LogSystem.receiveEvent, hsent, if_neg hidle] at hstep
    obtain rfl := Option.some.inj hstep
    cases event with
    | gap => cases hstreams
    | done => exact ⟨nofun, (List.append_nil _).symm, nofun⟩
    | connected seq => exact ⟨nofun, (List.append_nil _).symm, fun stream' h => (Transport.sse.inj h).symm⟩
    | output data => exact ⟨nofun, rfl, fun stream' h => (Transport.sse.inj h).symm⟩

/-- The stream of the viewer after an event, if it is still the same one. -/
theorem Streams.receive (h : Streams written stream) (hstep : s.receiveEvent stream = some s')
    (hstream : s'.transport = .sse stream') : Streams written stream' := by
  cases h with
  | waiting c rest hsent hrest hseq hheld hholding hsnapshot hflow =>
    simp only [LogSystem.receiveEvent, hsent, if_pos hholding] at hstep
    obtain rfl := Option.some.inj hstep
    obtain rfl := Transport.sse.inj hstream
    refine .holding c rfl hrest hholding ?_ fun lines seq hanswer => ?_
    · rw [hheld]
      exact (hflow.next (coming_cons hsent) nofun rfl hflow.full).of_coming rfl rfl hflow.full
    · rw [hsnapshot] at hanswer
      cases hanswer
  | holding c hseq hunconnected hholding hflow hsnapshot =>
    cases hsent : stream.sent with
    | nil => simp [LogSystem.receiveEvent, hsent] at hstep
    | cons event rest =>
      rw [hsent] at hunconnected
      have hrest : Unconnected rest := fun seq hmem => hunconnected seq (List.mem_cons_of_mem _ hmem)
      simp only [LogSystem.receiveEvent, hsent, if_pos hholding] at hstep
      obtain rfl := Option.some.inj hstep
      cases event with
      | connected seq => exact absurd List.mem_cons_self (hunconnected seq)
      | gap => cases hstream
      | output data =>
        obtain rfl := Transport.sse.inj hstream
        have hnext := hflow.next (coming_cons hsent) nofun rfl hflow.full
        exact .holding c hseq hrest hholding (hnext.of_coming rfl rfl hflow.full) hsnapshot
      | done =>
        obtain rfl := Transport.sse.inj hstream
        exact .holding c hseq (fun _ => List.not_mem_nil) hholding
          (hflow.unsubscribe rfl List.nil_prefix rfl hflow.full) hsnapshot
  | live hholding hsnapshot =>
    obtain ⟨event, rest, -, -, -, hrest⟩ := receive_live hholding hstep (by rw [hstream]; rfl)
    rw [hrest stream' hstream]
    exact .live hholding hsnapshot

/-- No event changes the buffer, and none begins to poll but with nothing shown. -/
theorem receive_frame (hstep : s.receiveEvent stream = some s') :
    s'.outputLines = s.outputLines ∧ s'.outputSeq = s.outputSeq ∧
      (s'.transport.polls = true → s' = s.fallBackToLogPolling) := by
  unfold LogSystem.receiveEvent at hstep
  split at hstep
  · cases hstep
  · next event rest hsent =>
    obtain rfl := Option.some.inj hstep
    cases event with
    | gap => exact ⟨rfl, rfl, fun _ => rfl⟩
    | connected seq => exact ⟨rfl, rfl, nofun⟩
    | output data => dsimp only; split_ifs <;> exact ⟨rfl, rfl, nofun⟩
    | done => dsimp only; split_ifs <;> exact ⟨rfl, rfl, nofun⟩

/-! ## A step -/

theorem Tracks.fallBack (h : Tracks written s) : Tracks written s.fallBackToLogPolling :=
  ⟨⟨h.buffers.seq, h.buffers.lines⟩, nofun, fun _ _ => ⟨List.nil_prefix, rfl⟩, nofun⟩

theorem Tracks.resume (h : Tracks written s) {content : List Text} {cursor : Nat} :
    Tracks written { s with content, logCursor := cursor }.resumeLogStream := by
  refine ⟨⟨h.buffers.seq, h.buffers.lines⟩, fun stream hstream => ?_, nofun, nofun⟩
  obtain rfl := Transport.sse.inj hstream
  show Streams written { sent := [.connected s.outputSeq] }
  rw [h.buffers.seq]
  exact streams_resume written

/-- A step that changes neither the buffer nor the polls. -/
theorem Tracks.of_buffer (h : Tracks written s) (hlines : s'.outputLines = s.outputLines)
    (hseq : s'.outputSeq = s.outputSeq) (hstream : ∀ stream, s'.transport = .sse stream → Streams written stream)
    (hpolls : s'.transport.polls = false) : Tracks written s' := by
  refine ⟨⟨hseq.trans h.buffers.seq, hlines.trans h.buffers.lines⟩, hstream, fun hnot => ?_,
    fun lines total hanswer => ?_⟩
  · rw [hpolls] at hnot
    cases hnot
  · rw [hanswer] at hpolls
    cases hpolls

theorem Tracks.bufferLine (h : Tracks written s) (line : Text) : Tracks (written ++ [line]) (s.bufferLine line) := by
  have hlength : (written ++ [line]).length ≤ maxOutputLines → written.length ≤ maxOutputLines := by
    rw [List.length_append, List.length_singleton]
    omega
  refine ⟨⟨?_, ?_⟩, fun stream hstream => ?_, fun hpolls hroom => ?_, fun lines total hanswer => ?_⟩
  · rw [bufferLine_outputSeq, List.length_append, h.buffers.seq, List.length_singleton]
  · rw [bufferLine_outputLines, h.buffers.lines, window_concat]
  · obtain ⟨before, htransport, rfl⟩ := bufferLine_stream hstream
    exact (h.stream before htransport).sends (sends_publish written before line)
  · rw [bufferLine_polls] at hpolls
    obtain ⟨hshown, hcursor⟩ := h.polls hpolls (hlength hroom)
    exact ⟨hshown.trans (List.prefix_append _ _), hcursor⟩
  · have hbefore : s.transport = .poll (some (lines, total)) := by
      unfold LogSystem.bufferLine at hanswer
      cases htransport : s.transport with
      | poll response =>
        rw [htransport] at hanswer
        exact hanswer
      | _ =>
        rw [htransport] at hanswer
        cases hanswer
    obtain ⟨htotal, hshort, hnext⟩ := h.answer lines total hbefore
    rw [bufferLine_logCursor]
    refine ⟨htotal, hshort, fun hroom => ?_⟩
    rw [List.drop_append]
    exact (hnext (hlength hroom)).trans (List.prefix_append _ _)

theorem window_length_le (written : List Text) (n : Nat) : (window written n).length ≤ maxOutputLines := by
  rw [window, List.length_drop, List.length_take]
  omega

theorem Tracks.answerPoll (h : Tracks written s) (htransport : s.transport = .poll none) :
    Tracks written { s with transport := .poll (some (s.outputLines.drop s.logCursor,
      s.logCursor + (s.outputLines.drop s.logCursor).length)) } := by
  refine ⟨⟨h.buffers.seq, h.buffers.lines⟩, nofun, fun _ => h.polls (by rw [htransport]; rfl),
    fun lines total hanswer => ?_⟩
  obtain ⟨rfl, rfl⟩ := Prod.mk.inj (Option.some.inj (Transport.poll.inj hanswer))
  refine ⟨rfl, ?_, fun hroom => ?_⟩
  · rw [List.length_drop, h.buffers.lines]
    exact Nat.sub_le_sub_right (window_length_le _ _) _
  · have hwhole : s.outputLines = written := by
      rw [h.buffers.lines, window, List.take_length, Nat.sub_eq_zero_of_le hroom, List.drop_zero]
    exact ⟨[], (List.append_nil _).trans (congrArg (List.drop s.logCursor) hwhole)⟩

theorem Tracks.receivePoll {lines : List Text} {total : Nat} (h : Tracks written s)
    (htransport : s.transport = .poll (some (lines, total))) : Tracks written (s.receivePoll lines total) := by
  obtain ⟨htotal, -, hnext⟩ := h.answer lines total htransport
  have hbefore := h.polls (by rw [htransport]; rfl)
  unfold LogSystem.receivePoll
  split_ifs with hempty
  · exact ⟨⟨h.buffers.seq, h.buffers.lines⟩, nofun, fun _ => hbefore, nofun⟩
  · refine ⟨⟨h.buffers.seq, h.buffers.lines⟩, nofun, fun _ hroom => ?_, nofun⟩
    obtain ⟨hshown, hcursor⟩ := hbefore hroom
    obtain ⟨rest, hrest⟩ := hshown
    have hlines := hnext hroom
    rw [hcursor, ← hrest, List.drop_left] at hlines
    refine ⟨?_, ?_⟩
    · show s.content ++ lines <+: written
      rw [← hrest]
      exact (List.prefix_append_right_inj _).mpr hlines
    · show total = (s.content ++ lines).length
      rw [htotal, hcursor, List.length_append]

theorem Tracks.sends (h : Tracks written s) (htransport : s.transport = .sse stream)
    (hsends : Sends written written stream stream') : Tracks written { s with transport := .sse stream' } := by
  refine h.of_buffer rfl rfl (fun stream'' hstream => ?_) rfl
  obtain rfl := Transport.sse.inj hstream
  exact (h.stream stream htransport).sends hsends

theorem Tracks.streamStep {a : LogAction} (h : Tracks written s) (htransport : s.transport = .sse stream)
    (hstep : logStep.streamStep s stream a = some s') : Tracks written s' := by
  cases a with
  | sendLine =>
    obtain ⟨stream', hsend, rfl⟩ := Option.map_eq_some_iff.mp hstep
    exact h.sends htransport (sends_sendLine written hsend)
  | waitTimeout =>
    obtain ⟨stream', hwait, rfl⟩ := Option.map_eq_some_iff.mp hstep
    exact h.sends htransport (sends_waitTimeout written hwait)
  | checkRunTerminal terminal =>
    obtain ⟨stream', hcheck, rfl⟩ := Option.map_eq_some_iff.mp hstep
    exact h.sends htransport (sends_checkRunTerminal written hcheck)
  | receiveEvent =>
    obtain ⟨hlines, hseq, hpolls⟩ := receive_frame hstep
    by_cases hpolling : s'.transport.polls = true
    · rw [hpolls hpolling]
      exact h.fallBack
    · refine h.of_buffer hlines hseq (fun stream' hstream => ?_) (Bool.eq_false_iff.mpr hpolling)
      exact (h.stream stream htransport).receive hstep hstream
  | connectTimeout | streamError | snapshotFails =>
    simp only [logStep.streamStep] at hstep
    split_ifs at hstep
    obtain rfl := Option.some.inj hstep
    exact h.fallBack
  | answerSnapshot =>
    simp only [logStep.streamStep] at hstep
    split_ifs at hstep with hasked
    obtain rfl := Option.some.inj hstep
    refine h.of_buffer rfl rfl (fun stream' hstream => ?_) rfl
    obtain rfl := Transport.sse.inj hstream
    cases h.stream stream htransport with
    | waiting c rest hsent hrest hseq => simp [hseq] at hasked
    | holding c hseq hsent hholding hflow hsnapshot =>
      refine .holding c hseq hsent hholding (hflow.of_coming rfl rfl hflow.full) fun lines seq hanswer => ?_
      obtain ⟨rfl, rfl⟩ := Prod.mk.inj (Option.some.inj hanswer)
      rw [h.buffers.seq, h.buffers.lines]
      exact ⟨hflow.bound, Nat.le_refl _, rfl⟩
    | live hholding => simp [hholding] at hasked
  | reconcile =>
    obtain ⟨⟨lines, seq⟩, -, rfl⟩ := Option.map_eq_some_iff.mp hstep
    unfold LogSystem.reconcileLogStream
    dsimp only
    cases stream.done with
    | true => exact h.of_buffer rfl rfl nofun rfl
    | false =>
      refine h.of_buffer rfl rfl (fun stream' hstream => ?_) rfl
      obtain rfl := Transport.sse.inj hstream
      exact .live rfl rfl
  | _ => cases hstep

/-- What a step does that writes no line. -/
inductive Moves (s : LogSystem) (a : LogAction) : LogSystem → Prop
  | stream {stream : LogStream} {s' : LogSystem} (htransport : s.transport = .sse stream)
      (hstep : logStep.streamStep s stream a = some s') : Moves s a s'
  | poll (hopens : a.opens = true) : Moves s a s.fallBackToLogPolling
  | resume (content : List Text) (cursor : Nat) (hopens : a.opens = true) :
      Moves s a { s with content, logCursor := cursor }.resumeLogStream
  | close : Moves s a { s with logCursor := 0, transport := .closed }
  | hide {stream : LogStream} (htransport : s.transport = .sse stream) : Moves s a { s with transport := .hiddenSse }
  | polls (transport : Transport) (hpolls : s.transport.polls = true)
      (hidle : transport = .poll none ∨ transport = .hiddenPoll) : Moves s a { s with transport }
  | answerPoll (htransport : s.transport = .poll none) : Moves s a
      { s with
        transport := .poll (some (s.outputLines.drop s.logCursor,
          s.logCursor + (s.outputLines.drop s.logCursor).length)) }
  | receivePoll {lines : List Text} {total : Nat} (htransport : s.transport = .poll (some (lines, total))) :
      Moves s a (s.receivePoll lines total)

theorem moves_of_step {a : LogAction} (hquiet : ∀ line, a ≠ .bufferLine line) (hstep : logStep s a = some s') :
    Moves s a s' := by
  cases a with
  | bufferLine line => exact absurd rfl (hquiet line)
  | viewLogs finished =>
    simp only [logStep] at hstep
    split at hstep
    · obtain rfl := Option.some.inj hstep
      cases finished with
      | true => exact .poll rfl
      | false => exact .resume [] 0 rfl
    · cases hstep
  | closeLogViewer =>
    simp only [logStep] at hstep
    split at hstep <;> cases hstep
    exact .close
  | hide =>
    simp only [logStep] at hstep
    split at hstep <;> cases hstep
    · next htransport => exact .hide htransport
    · next htransport => exact .polls _ (by rw [htransport]; rfl) (.inr rfl)
  | «show» =>
    simp only [logStep] at hstep
    split at hstep <;> cases hstep
    · exact .resume s.content s.logCursor rfl
    · next htransport => exact .polls _ (by rw [htransport]; rfl) (.inl rfl)
  | answerPoll =>
    simp only [logStep] at hstep
    split at hstep <;> cases hstep
    next htransport => exact .answerPoll htransport
  | receivePoll =>
    simp only [logStep] at hstep
    split at hstep <;> cases hstep
    next htransport => exact .receivePoll htransport
  | pollFails =>
    simp only [logStep] at hstep
    split at hstep <;> cases hstep
    next htransport => exact .polls _ (by rw [htransport]; rfl) (.inl rfl)
  | _ =>
    simp only [logStep] at hstep
    split at hstep
    · next htransport => exact .stream htransport hstep
    · cases hstep

theorem Tracks.moves {a : LogAction} (h : Tracks written s) (hmoves : Moves s a s') : Tracks written s' := by
  cases hmoves with
  | stream htransport hstep => exact h.streamStep htransport hstep
  | poll => exact h.fallBack
  | resume content cursor => exact h.resume
  | close => exact h.of_buffer rfl rfl nofun rfl
  | hide => exact h.of_buffer rfl rfl nofun rfl
  | polls transport hpolls hidle =>
    rcases hidle with rfl | rfl <;> exact ⟨⟨h.buffers.seq, h.buffers.lines⟩, nofun, fun _ => h.polls hpolls, nofun⟩
  | answerPoll htransport => exact h.answerPoll htransport
  | receivePoll htransport => exact h.receivePoll htransport

theorem writtenLines_of_quiet {a : LogAction} (h : ∀ line, a ≠ .bufferLine line) : writtenLines [a] = [] := by
  cases a with
  | bufferLine line => exact absurd rfl (h line)
  | _ => rfl

/-- A property of the lines written and the state is kept by every step when the agent's own step keeps it and the
others do, which write no line. -/
theorem step_of_quiet {P : List Text → LogSystem → Prop} {a : LogAction} (hstep : logStep s a = some s')
    (hline : ∀ line, a = .bufferLine line → P (written ++ [line]) (s.bufferLine line))
    (hquiet : (∀ line, a ≠ .bufferLine line) → P written s') : P (written ++ writtenLines [a]) s' := by
  by_cases hwrites : ∃ line, a = .bufferLine line
  · obtain ⟨line, rfl⟩ := hwrites
    obtain rfl := Option.some.inj hstep
    exact hline line rfl
  · rw [not_exists] at hwrites
    rw [writtenLines_of_quiet hwrites, List.append_nil]
    exact hquiet hwrites

theorem Tracks.step {a : LogAction} (h : Tracks written s) (hstep : logStep s a = some s') :
    Tracks (written ++ writtenLines [a]) s' :=
  step_of_quiet hstep (fun line _ => h.bufferLine line) fun hquiet => h.moves (moves_of_step hquiet hstep)

theorem tracks_run {as : List LogAction} (h : Runs.exec logStep {} as = some s) :
    Tracks (writtenLines as) s := by
  refine Runs.history_invariant (P := fun as s => Tracks (writtenLines as) s) ?_ ?_ h
  · exact ⟨⟨rfl, rfl⟩, nofun, nofun, nofun⟩
  · intro as s a s' _ htracks hstep
    rw [writtenLines_append]
    exact htracks.step hstep

/-! ## A stream after the snapshot -/

/-- What the viewer shows, when the snapshot came with `seq` and the held lines: the lines `delivered` are the ones
that have arrived on the stream. -/
structure ShowsWith (written : List Text) (c seq : Nat) (held delivered : List Text) (s : LogSystem) : Prop where
  arrived : held <+: delivered
  sent : delivered <+: written.drop c
  content : s.content = window written seq ++ delivered.drop (min (seq - c) held.length)
  live : ∀ stream, s.transport = .sse stream →
    stream.holding = false ∧ stream.snapshot = none ∧ Flows written c delivered stream

/-- As long as the viewer does not turn to polling. -/
def Shows (written : List Text) (c seq : Nat) (held : List Text) (s : LogSystem) : Prop :=
  s.transport.streams = true → ∃ delivered, ShowsWith written c seq held delivered s

variable {seq : Nat} {held : List Text}

theorem ShowsWith.sends (h : ShowsWith written c seq held delivered s) (htransport : s.transport = .sse stream)
    (hsends : Sends written written stream stream') :
    ShowsWith written c seq held delivered { s with transport := .sse stream' } := by
  refine ⟨h.arrived, h.sent, h.content, fun stream'' hstream => ?_⟩
  obtain rfl := Transport.sse.inj hstream
  obtain ⟨hholding, hsnapshot, hflow⟩ := h.live stream htransport
  exact ⟨hsends.holding.trans hholding, hsends.snapshot.trans hsnapshot, hsends.flows _ _ hflow⟩

theorem Shows.bufferLine (h : Shows written c seq held s) (hc : c ≤ written.length) (hseq : seq ≤ written.length)
    (line : Text) : Shows (written ++ [line]) c seq held (s.bufferLine line) := by
  intro hstreams
  rw [bufferLine_streams] at hstreams
  obtain ⟨delivered, hshows⟩ := h hstreams
  refine ⟨delivered, hshows.arrived, ?_, ?_, fun stream hstream => ?_⟩
  · rw [List.drop_append_of_le_length hc]
    exact hshows.sent.trans (List.prefix_append _ _)
  · rw [bufferLine_content, window_append hseq]
    exact hshows.content
  · obtain ⟨before, htransport, rfl⟩ := bufferLine_stream hstream
    obtain ⟨hholding, hsnapshot, hflow⟩ := hshows.live before htransport
    have hsends := sends_publish written before line
    exact ⟨hsends.holding.trans hholding, hsends.snapshot.trans hsnapshot, hflow.publish line⟩

theorem ShowsWith.receive (h : ShowsWith written c seq held delivered s) (htransport : s.transport = .sse stream)
    (hstep : s.receiveEvent stream = some s') (hstreams : s'.transport.streams = true) :
    ∃ delivered, ShowsWith written c seq held delivered s' := by
  obtain ⟨hholding, hsnapshot, hflow⟩ := h.live stream htransport
  obtain ⟨event, rest, hsent, hgap, hcontent, hrest⟩ := receive_live hholding hstep hstreams
  have hmin : min (seq - c) held.length ≤ delivered.length :=
    Nat.le_trans (Nat.min_le_right _ _) h.arrived.length_le
  have hnext := hflow.next (coming_cons hsent) hgap rfl hflow.full
  refine ⟨delivered ++ beforeGap [event], h.arrived.trans (List.prefix_append _ _), hnext.arrived, ?_,
    fun stream' hstream => ?_⟩
  · rw [hcontent, h.content, List.append_assoc, List.drop_append_of_le_length hmin]
  · rw [hrest stream' hstream]
    exact ⟨hholding, hsnapshot, hnext⟩

theorem ShowsWith.streamStep {a : LogAction} (h : ShowsWith written c seq held delivered s)
    (htransport : s.transport = .sse stream) (hstep : logStep.streamStep s stream a = some s') :
    Shows written c seq held s' := by
  intro hstreams
  obtain ⟨hholding, hsnapshot, hflow⟩ := h.live stream htransport
  cases a with
  | sendLine =>
    obtain ⟨stream', hsend, rfl⟩ := Option.map_eq_some_iff.mp hstep
    exact ⟨delivered, h.sends htransport (sends_sendLine written hsend)⟩
  | waitTimeout =>
    obtain ⟨stream', hwait, rfl⟩ := Option.map_eq_some_iff.mp hstep
    exact ⟨delivered, h.sends htransport (sends_waitTimeout written hwait)⟩
  | checkRunTerminal terminal =>
    obtain ⟨stream', hcheck, rfl⟩ := Option.map_eq_some_iff.mp hstep
    exact ⟨delivered, h.sends htransport (sends_checkRunTerminal written hcheck)⟩
  | receiveEvent => exact h.receive htransport hstep hstreams
  | streamError =>
    simp only [logStep.streamStep] at hstep
    split_ifs at hstep
    obtain rfl := Option.some.inj hstep
    cases hstreams
  | reconcile =>
    obtain ⟨answer, hanswer, -⟩ := Option.map_eq_some_iff.mp hstep
    rw [hsnapshot] at hanswer
    cases hanswer
  | connectTimeout | snapshotFails | answerSnapshot => simp [logStep.streamStep, hholding] at hstep
  | _ => cases hstep

theorem Shows.moves {a : LogAction} (h : Shows written c seq held s) (hopens : a.opens = false)
    (hmoves : Moves s a s') : Shows written c seq held s' := by
  cases hmoves with
  | stream htransport hstep =>
    obtain ⟨delivered, hshows⟩ := h (by rw [htransport]; rfl)
    exact hshows.streamStep htransport hstep
  | poll hopen | resume _ _ hopen =>
    rw [hopens] at hopen
    cases hopen
  | hide htransport =>
    obtain ⟨delivered, hshows⟩ := h (by rw [htransport]; rfl)
    exact fun _ => ⟨delivered, hshows.arrived, hshows.sent, hshows.content, nofun⟩
  | polls transport hpolls hidle => rcases hidle with rfl | rfl <;> exact nofun
  | close | answerPoll => exact nofun
  | receivePoll =>
    unfold LogSystem.receivePoll
    split_ifs <;> exact nofun

theorem shows_run {as bs : List LogAction} (h : Shows (writtenLines as) c seq held s) (hc : c ≤ seq)
    (hseq : seq ≤ (writtenLines as).length) (hrun : Runs.exec logStep s bs = some s')
    (hopens : ∀ a ∈ bs, a.opens = false) : Shows (writtenLines (as ++ bs)) c seq held s' := by
  induction bs generalizing as s with
  | nil =>
    obtain rfl := Option.some.inj hrun
    rw [List.append_nil]
    exact h
  | cons b bs ih =>
    obtain ⟨t, hstep, hrest⟩ := Runs.exec_cons hrun
    rw [← List.singleton_append, ← List.append_assoc]
    have hgrows := writtenLines_append as [b]
    refine ih ?_ ?_ hrest fun a ha => hopens a (List.mem_cons_of_mem _ ha)
    · rw [hgrows]
      exact step_of_quiet (P := fun written s => Shows written c seq held s) hstep
        (fun line _ => h.bufferLine (Nat.le_trans hc hseq) hseq line)
        fun hquiet => h.moves (hopens b List.mem_cons_self) (moves_of_step hquiet hstep)
    · rw [hgrows, List.length_append]
      exact Nat.le_add_right_of_le hseq

theorem reconcile_content (lines : List Text) : (s.reconcileLogStream stream lines seq).content =
    lines ++ stream.held.drop (logOverlap lines stream.held stream.connectedSeq (some seq)) := rfl

/-- The snapshot arrives. -/
theorem shows_reconcile {lines : List Text} (h : Tracks written s) (htransport : s.transport = .sse stream)
    (hsnapshot : stream.snapshot = some (lines, seq)) : ∃ c, stream.connectedSeq = some c ∧ c ≤ seq ∧
      seq ≤ written.length ∧ Shows written c seq stream.held (s.reconcileLogStream stream lines seq) := by
  cases h.stream stream htransport with
  | waiting c rest hsent hrest hseq hheld hholding hnone =>
    rw [hnone] at hsnapshot
    cases hsnapshot
  | live hholding hnone =>
    rw [hnone] at hsnapshot
    cases hsnapshot
  | holding c hseq hsent hholding hflow hanswer =>
    obtain ⟨hfrom, hto, hlines⟩ := hanswer lines seq hsnapshot
    refine ⟨c, hseq, hfrom, hto, fun _ => ⟨stream.held, ?_⟩⟩
    constructor
    case arrived => exact List.prefix_rfl
    case sent => exact hflow.arrived
    case content =>
      rw [reconcile_content, hseq, hlines]
      rfl
    case live =>
      intro stream' hstream
      unfold LogSystem.reconcileLogStream at hstream
      dsimp only at hstream
      cases hdone : stream.done with
      | true =>
        rw [hdone, if_pos rfl] at hstream
        cases hstream
      | false =>
        rw [hdone, if_neg Bool.false_ne_true] at hstream
        obtain rfl := Transport.sse.inj hstream
        exact ⟨rfl, rfl, hflow.of_coming rfl rfl hflow.full⟩

/-! ## The content -/

/-- The content is a stretch of the output if and only if nothing is shown twice. -/
theorem content_eq_iff (hc : c ≤ seq) (hseq : seq ≤ written.length) (hheld : held <+: delivered)
    (hdelivered : delivered <+: written.drop c) :
    window written seq ++ delivered.drop (min (seq - c) held.length) =
        (written.take (max seq (c + delivered.length))).drop (seq - maxOutputLines) ↔
      seq ≤ c + held.length ∨ delivered = held := by
  have hlength := hheld.length_le
  have hbound := hdelivered.length_le
  rw [List.length_drop] at hbound
  have hwindow : (window written seq).length = seq - (seq - maxOutputLines) := by
    rw [window, List.length_drop, List.length_take, Nat.min_eq_left hseq]
  constructor
  · intro heq
    have hlengths := congrArg List.length heq
    rw [List.length_append, hwindow, List.length_drop, List.length_drop, List.length_take] at hlengths
    by_cases hearly : seq ≤ c + held.length
    · exact .inl hearly
    · refine .inr (hheld.eq_of_length ?_).symm
      omega
  · intro hdisjunction
    by_cases hearly : seq ≤ c + held.length
    · have hall : delivered = (written.drop c).take delivered.length := List.prefix_iff_eq_take.mp hdelivered
      rw [Nat.min_eq_left (by omega), Nat.max_eq_right (by omega)]
      conv_lhs => rw [hall]
      rw [List.drop_take, List.drop_drop, show c + (seq - c) = seq by omega,
        show c + delivered.length = seq + (delivered.length - (seq - c)) by omega,
        List.take_add, List.drop_append_of_le_length (by rw [List.length_take]; omega), window]
    · obtain rfl := hdisjunction.resolve_left hearly
      rw [Nat.min_eq_right (by omega), Nat.max_eq_left (by omega), List.drop_length, List.append_nil, window]

/-- The polling has come to the end of the buffer. -/
structure Frozen (content : List Text) (s : LogSystem) : Prop where
  tracks : ∃ written, Tracks written s
  polls : s.transport.polls = true
  content : s.content = content
  cursor : maxOutputLines ≤ s.logCursor

theorem Frozen.step {content : List Text} {a : LogAction} (h : Frozen content s) (hclose : a ≠ .closeLogViewer)
    (hstep : logStep s a = some s') : Frozen content s' := by
  obtain ⟨⟨written, htracks⟩, hpolls, hcontent, hcursor⟩ := h
  have htracks' : ∃ written, Tracks written s' := ⟨_, htracks.step hstep⟩
  cases a with
  | bufferLine line =>
    obtain rfl := Option.some.inj hstep
    exact ⟨htracks', (bufferLine_polls s line).trans hpolls, hcontent, hcursor⟩
  | closeLogViewer => exact absurd rfl hclose
  | receivePoll =>
    simp only [logStep] at hstep
    split at hstep
    · next lines total htransport =>
      obtain rfl := Option.some.inj hstep
      obtain ⟨-, hshort, -⟩ := htracks.answer lines total htransport
      have hempty : lines = [] := List.length_eq_zero_iff.mp (by omega)
      unfold LogSystem.receivePoll at htracks' ⊢
      rw [if_pos hempty] at htracks' ⊢
      exact ⟨htracks', rfl, hcontent, hcursor⟩
    · cases hstep
  | _ =>
    cases htransport : s.transport with
    | poll response =>
      cases response <;> simp only [logStep, htransport] at hstep <;> cases hstep <;>
        exact ⟨htracks', rfl, hcontent, hcursor⟩
    | hiddenPoll =>
      simp only [logStep, htransport] at hstep
      cases hstep <;> exact ⟨htracks', rfl, hcontent, hcursor⟩
    | _ =>
      rw [htransport] at hpolls
      cases hpolls

/-- A poll that is answered when the buffer is full comes to its end. -/
theorem frozen_of_poll (h : Tracks written s) (hfull : maxOutputLines ≤ written.length)
    (hrun : Runs.exec logStep s [.answerPoll, .receivePoll] = some s') : Frozen s'.content s' := by
  obtain ⟨t, hanswer, hrest⟩ := Runs.exec_cons hrun
  obtain ⟨u, hreceive, hdone⟩ := Runs.exec_cons hrest
  obtain rfl := Option.some.inj hdone
  have hlength : s.outputLines.length = maxOutputLines := by
    rw [h.buffers.lines, window, List.take_length, List.length_drop]
    omega
  refine ⟨⟨_, (h.step hanswer).step hreceive⟩, ?_, rfl, ?_⟩ <;>
    simp only [logStep] at hanswer <;> split at hanswer
  · obtain rfl := Option.some.inj hanswer
    obtain rfl := Option.some.inj hreceive
    unfold LogSystem.receivePoll
    split_ifs <;> rfl
  · cases hanswer
  · obtain rfl := Option.some.inj hanswer
    obtain rfl := Option.some.inj hreceive
    unfold LogSystem.receivePoll
    split_ifs with hempty
    · have hpast := congrArg List.length hempty
      rw [List.length_drop, hlength, List.length_nil] at hpast
      exact Nat.le_of_sub_eq_zero hpast
    · show maxOutputLines ≤ s.logCursor + (s.outputLines.drop s.logCursor).length
      rw [List.length_drop, hlength]
      omega
  · cases hanswer

/-- A line is written between the subscription and the snapshot, and comes after the snapshot on the stream. -/
def overtaken : List LogAction :=
  [.bufferLine "a".toList, .viewLogs false, .receiveEvent, .bufferLine "b".toList, .answerSnapshot]

/-- A finished run of two lines. -/
def polled : List LogAction :=
  [.bufferLine "a".toList, .bufferLine "b".toList, .viewLogs true, .answerPoll, .receivePoll]

end

end Dashboard.LogViewer
