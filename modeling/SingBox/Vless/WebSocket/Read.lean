import SingBox.Vless.WebSocket.Outcome

namespace SingBox.Vless

open Library

-- A transport that is at most slow: it takes what it is given and does not fail
-- before it ends, and there are masks.
structure Environment.Reliable (inner : Environment) : Prop where
  accepting : inner.Accepting
  reads : ∀ n error, inner.reads n ≠ .failed error
  masks : ∀ n, inner.masks n ≠ none

namespace WebSocketStream

-- All that `poll_read` has still to hand out, and how it will end.
def remaining (this : WebSocketStream) : Bytes × IoResult Unit :=
  let (data, outcome) := this.view.expected this.clientSide
  (this.earlyData.drop this.earlyOffset ++ data, outcome)

-- The frames of a byte stream that ends behind a whole frame.
inductive Accepts (clientSide : Bool) : Bool → Bytes → List WholeFrame → Prop
  | nil (fragmented : Bool) : Accepts clientSide fragmented [] []
  | cons (fragmented next : Bool) (header masked rest : Bytes) (frame : WebSocketReadFrame)
      (frames : List WholeFrame)
      (hstart : parseHeader clientSide fragmented header = .ok (some (frame, next, header.length)))
      (hpayload : masked.length = frame.remaining) (htail : Accepts clientSide next rest frames) :
      Accepts clientSide fragmented (header ++ masked ++ rest)
        (⟨frame.opcode, xorMask frame.mask 0 masked⟩ :: frames)

-- The application bytes up to the first Close.
def dataBeforeClose (frames : List WholeFrame) : Bytes :=
  (frames.takeWhile fun frame => frame.opcode != 0x8).flatMap WholeFrame.data

-- A whole frame at the front comes out first.
theorem parse_cons {clientSide fragmented next : Bool} {header masked : Bytes}
    {frame : WebSocketReadFrame}
    (hstart : parseHeader clientSide fragmented header = .ok (some (frame, next, header.length)))
    (hpayload : masked.length = frame.remaining) (rest : Bytes) :
    parse clientSide fragmented (header ++ masked ++ rest) =
      (⟨frame.opcode, xorMask frame.mask 0 masked⟩ :: (parse clientSide next rest).1,
        (parse clientSide next rest).2) := by
  have hs := parseHeader_append clientSide fragmented header (masked ++ rest) (by simp [hstart])
  rw [hstart] at hs
  have hh := (parseHeader_some _ _ _ _ _ _).mp hs
  obtain ⟨hk, hm, _⟩ := hh.kept
  rw [List.append_assoc, parse_header _ _ _ _ _ _ hh]
  simp only [continueFrame, continueFrom, hk, hm, List.drop_left, List.nil_append,
    ← hpayload, List.take_left, List.length_append]
  rw [if_neg (by omega)]

theorem Accepts.parse {clientSide fragmented : Bool} {bytes : Bytes} {frames : List WholeFrame}
    (h : Accepts clientSide fragmented bytes frames) :
    parse clientSide fragmented bytes = (frames, .clean) := by
  induction h with
  | nil fragmented => exact parse_nil clientSide fragmented
  | cons fragmented next header masked rest frame frames hstart hpayload htail ih =>
      rw [parse_cons hstart hpayload, ih]

theorem deliver_clean (frames : List WholeFrame) :
    deliver frames .clean = (dataBeforeClose frames, .ok ()) := by
  induction frames with
  | nil => rfl
  | cons frame frames ih =>
      by_cases hc : frame.opcode = 0x8
      · simp [deliver, dataBeforeClose, hc]
      · simp only [deliver, hc, if_false, ih, dataBeforeClose]
        rw [List.takeWhile_cons_of_pos (by simpa using hc), List.flatMap_cons]

theorem Kept.reliable {this next : WebSocketStream} (h : Kept this next)
    (hr : this.inner.Reliable) : next.inner.Reliable where
  accepting := h.writes.accepting hr.accepting
  reads := by
    obtain ⟨used, hu⟩ := h.reads
    intro n
    rw [hu n]
    exact hr.reads (n + used)
  masks := by
    obtain ⟨used, hu⟩ := h.masks
    intro n
    rw [hu n]
    exact hr.masks (n + used)

theorem Kept.remaining {this next : WebSocketStream} (h : Kept this next)
    (he : next.view.expected this.clientSide = this.view.expected this.clientSide) :
    next.remaining = this.remaining := by
  simp only [WebSocketStream.remaining, h.clientSide, h.earlyData, h.earlyOffset, he]

theorem Replies.kept {this next : WebSocketStream} {frame : WholeFrame}
    (h : Replies this next frame) : Kept this next := by
  cases h with
  | close _ hq _ => exact hq.toKept
  | ping _ hq _ => exact hq.toKept
  | silent _ _ hq => exact hq.toKept

-- All that a call of `poll_read` can do over a reliable transport.
inductive ReadCall (output : Nat) (this : WebSocketStream) : ReadResult × WebSocketStream → Prop
  | pending (next : WebSocketStream) (hr : next.remaining = this.remaining)
      (hc : (∃ n, this.inner.writes n = .pending) ∨ ∃ n, this.inner.reads n = .pending) :
      ReadCall output this (.pending, next)
  | bytes (next : WebSocketStream) (bytes : Bytes) (hle : bytes.length ≤ output)
      (hr : this.remaining = (bytes ++ next.remaining.1, next.remaining.2))
      (he : bytes = [] → output = 0 ∨ this.remaining = ([], .ok ())) :
      ReadCall output this (.ready (.ok bytes), next)
  | error (next : WebSocketStream) (error : IoError) (hr : next.remaining = this.remaining)
      (he : this.remaining = ([], .error error)) :
      ReadCall output this (.ready (.error error), next)

theorem ReadCall.of_kept {output : Nat} {this mid : WebSocketStream}
    {result : ReadResult × WebSocketStream} (hk : Kept this mid)
    (hm : mid.remaining = this.remaining) (h : ReadCall output mid result) :
    ReadCall output this result := by
  cases h with
  | pending next hr hc =>
      refine .pending next (hr.trans hm) (hc.imp ?_ ?_)
      · exact hk.writes.exists (p := (· = .pending))
      · exact hk.reads.exists (p := (· = .pending))
  | bytes next bytes hle hr he =>
      rw [hm] at hr he
      exact .bytes next bytes hle hr he
  | error next error hr he =>
      rw [hm] at hr he
      exact .error next error hr he

-- The loop of `poll_read`, once the early data has been handed out: its
-- invariant is that nothing has been delivered yet.
theorem readLoop_call (output : Nat) (this : WebSocketStream) (hs : this.Sound)
    (hr : this.inner.Reliable) (hearly : this.earlyData.length ≤ this.earlyOffset) :
    ReadCall output this (Loop.run (readPass output) readMeasure (readPass_decreases output) this) ∧
      Kept this (Loop.run (readPass output) readMeasure (readPass_decreases output) this).2 ∧
      (Loop.run (readPass output) readMeasure (readPass_decreases output) this).2.Sound := by
  have hremaining : ∀ state, Kept this state →
      state.remaining = state.view.expected state.clientSide := by
    intro state hk
    rw [WebSocketStream.remaining, hk.earlyData, hk.earlyOffset, List.drop_of_length_le hearly]
    rfl
  apply Loop.run_rule
    (fun state => state.Sound ∧ Kept this state ∧ state.remaining = this.remaining)
    (fun result => ReadCall output this result ∧ Kept this result.2 ∧ result.2.Sound)
    (readPass_decreases output) _ _ this ⟨hs, (Quiet.refl this).toKept, rfl⟩
  · rintro state next ⟨hss, hk, hm⟩ hp
    have hc := readPass_cases output state hss
    rw [hp] at hc
    cases hc with
    | progressed _ hst =>
        exact ⟨hst.sound hss, hk.trans hst.toKept, (hst.toKept.remaining hst.expected).trans hm⟩
    | finished _ frame hns hreply ho hcl hf he =>
        exact ⟨hns hss, hk.trans hreply.kept, (hreply.kept.remaining he).trans hm⟩
  · rintro state result ⟨hss, hk, hm⟩ hp
    have hc := readPass_cases output state hss
    rw [hp] at hc
    have hexp := hremaining state hk
    have hrel := hk.reliable hr
    cases hc with
    | stalled next hst hcause =>
        exact ⟨.of_kept hk hm (.pending next (hst.toKept.remaining hst.expected) hcause),
          hk.trans hst.toKept, hst.sound hss⟩
    | broken next error _ hcause =>
        rcases hcause with hn | ⟨n, other, hn⟩
        · exact absurd hrel.accepting hn
        · exact absurd hn (hrel.reads n other)
    | maskless next error _ _ _ hcause =>
        obtain ⟨n, hn⟩ := hcause
        exact absurd hn (hrel.masks n)
    | idle next hst hcause =>
        refine ⟨.of_kept hk hm (.bytes next [] (Nat.zero_le _) ?_ fun _ => ?_),
          hk.trans hst.toKept, hst.sound hss⟩
        · rw [List.nil_append, hst.toKept.remaining hst.expected]
        · refine hcause.symm.imp id fun hclosed => ?_
          have hview : state.view.closed = true := hclosed
          simp only [hexp, ReadView.expected, hview, if_true]
    | refused next error hst ho he =>
        exact ⟨.of_kept hk hm (.error next error (hst.toKept.remaining hst.expected)
          (hexp.trans he)), hk.trans hst.toKept, hst.sound hss⟩
    | ended next hq hns ho hclosed hf hn =>
        have hview : state.view.closed = false := ho
        have hnext : next.view.closed = true := hclosed
        have hend : state.view.expected state.clientSide = ([], .ok ()) := by
          simp only [ReadView.expected, hview, hf, deliver, Bool.false_eq_true, if_false]
        have hsame : next.remaining = state.remaining := by
          refine hq.toKept.remaining ?_
          rw [hend]
          simp only [ReadView.expected, hnext, if_true]
        refine ⟨.of_kept hk hm (.bytes next [] (Nat.zero_le _) ?_ fun _ => .inr (hexp.trans hend)),
          hk.trans hq.toKept, hns hss⟩
        rw [List.nil_append, hsame]
    | delivered next bytes hq hns hpos hle ho hc he hpings =>
        refine ⟨.of_kept hk hm (.bytes next bytes hle ?_ fun hempty => absurd hempty hpos),
          hk.trans hq.toKept, hns hss⟩
        rw [hexp, hremaining next (hk.trans hq.toKept), hq.clientSide, he]

theorem pollRead_call (output : Nat) (this : WebSocketStream) (hs : this.Sound)
    (hr : this.inner.Reliable) :
    ReadCall output this (this.pollRead output) ∧ (this.pollRead output).2.inner.Reliable ∧
      (this.pollRead output).2.Sound ∧ (this.pollRead output).2.clientSide = this.clientSide := by
  unfold pollRead
  split
  · rename_i hearly
    refine ⟨.bytes _ _ ?_ ?_ ?_, hr, ⟨hs.input, hs.output, hs.view⟩, rfl⟩
    · rw [List.length_take]
      omega
    · have hd : this.earlyData.drop this.earlyOffset =
          (this.earlyData.drop this.earlyOffset).take
            (min (this.earlyData.length - this.earlyOffset) output) ++
          this.earlyData.drop (this.earlyOffset +
            min (this.earlyData.length - this.earlyOffset) output) := by
        rw [← List.drop_drop, List.take_append_drop]
      simp only [remaining]
      rw [← List.append_assoc, ← hd]
      rfl
    · intro hempty
      left
      have hlen := congrArg List.length hempty
      simp only [List.length_take, List.length_drop, List.length_nil] at hlen
      omega
  · rename_i hearly
    obtain ⟨hc, hk, hns⟩ := readLoop_call output this hs hr (Nat.not_lt.mp hearly)
    exact ⟨hc, hk.reliable hr, hns, hk.clientSide⟩

-- A reader's calls one after another, each with the room it has.
def pollReads : WebSocketStream → List Nat → List ReadResult × WebSocketStream
  | this, [] => ([], this)
  | this, output :: rest =>
      let (result, next) := this.pollRead output
      let (results, last) := pollReads next rest
      (result :: results, last)

def bytesOf : ReadResult → Bytes
  | .ready (.ok bytes) => bytes
  | _ => []

def delivered (results : List ReadResult) : Bytes := results.flatMap bytesOf

-- What one answer says when `rest` has still to come and `outcome` after it.
def Answers (output : Nat) (inner : Environment) (rest : Bytes) (outcome : IoResult Unit) :
    ReadResult → Prop
  | .pending => ∃ n, inner.writes n = .pending ∨ inner.reads n = .pending
  | .ready (.ok []) => output = 0 ∨ (rest = [] ∧ outcome = .ok ())
  | .ready (.ok bytes) => bytes.length ≤ output ∧ bytes <+: rest
  | .ready (.error error) => rest = [] ∧ outcome = .error error

theorem pollRead_answers (output : Nat) (this : WebSocketStream) (hs : this.Sound)
    (hr : this.inner.Reliable) :
    Answers output this.inner this.remaining.1 this.remaining.2 (this.pollRead output).1 := by
  obtain ⟨hc, _⟩ := pollRead_call output this hs hr
  generalize this.pollRead output = result at hc
  cases hc with
  | pending next hr hc =>
      rcases hc with ⟨n, hn⟩ | ⟨n, hn⟩
      · exact ⟨n, .inl hn⟩
      · exact ⟨n, .inr hn⟩
  | bytes next bytes hle hr he =>
      cases bytes with
      | nil => exact (he rfl).imp id fun hend => by simp [hend]
      | cons byte rest => exact ⟨hle, by rw [hr]; exact List.prefix_append _ _⟩
  | error next error hr he => simp [Answers, he]

theorem pollReads_remaining (this : WebSocketStream) (sizes : List Nat) (hs : this.Sound)
    (hr : this.inner.Reliable) :
    this.remaining = (delivered (this.pollReads sizes).1 ++ (this.pollReads sizes).2.remaining.1,
        (this.pollReads sizes).2.remaining.2) ∧
      (this.pollReads sizes).2.Sound ∧ (this.pollReads sizes).2.inner.Reliable := by
  induction sizes generalizing this with
  | nil => exact ⟨rfl, hs, hr⟩
  | cons output rest ih =>
      obtain ⟨hc, hrel, hns, _⟩ := pollRead_call output this hs hr
      have hstep : this.remaining = (bytesOf (this.pollRead output).1 ++
          (this.pollRead output).2.remaining.1, (this.pollRead output).2.remaining.2) := by
        generalize this.pollRead output = result at hc
        cases hc with
        | pending next hr hc => simp [bytesOf, hr]
        | bytes next bytes hle hr he => exact hr
        | error next error hr he => simp [bytesOf, hr]
      obtain ⟨hi, hlast⟩ := ih (this.pollRead output).2 hns hrel
      refine ⟨?_, hlast⟩
      simp only [pollReads, delivered, List.flatMap_cons, List.append_assoc]
      rw [hstep, hi]
      rfl

theorem remaining_new (inner : Environment) (tail earlyData : Bytes) (clientSide : Bool) :
    (new inner tail earlyData clientSide).remaining =
      (earlyData ++ (deliver (parse clientSide false (tail ++ inner.incoming)).1
          (parse clientSide false (tail ++ inner.incoming)).2).1,
        (deliver (parse clientSide false (tail ++ inner.incoming)).1
          (parse clientSide false (tail ++ inner.incoming)).2).2) := rfl

-- The bytes decide what is delivered and where it ends, not how they arrive:
-- after any reads, the next one hands out what comes next, or reports the end
-- once everything has been handed out.
theorem read_segmentation_independent (inner : Environment) (hr : inner.Reliable)
    (tail earlyData : Bytes) (clientSide : Bool) (sizes : List Nat) (output : Nat) :
    let bytes := tail ++ inner.incoming
    let expected := deliver (parse clientSide false bytes).1 (parse clientSide false bytes).2
    let reads := (new inner tail earlyData clientSide).pollReads sizes
    (∃ rest, delivered reads.1 ++ rest = earlyData ++ expected.1 ∧
      Answers output reads.2.inner rest expected.2 (reads.2.pollRead output).1) ∧
    ∀ frames, Accepts clientSide false bytes frames →
      expected = (dataBeforeClose frames, .ok ()) := by
  intro bytes expected reads
  have hs := sound_new inner tail earlyData clientSide
  obtain ⟨hm, hms, hmr⟩ := pollReads_remaining _ sizes hs hr
  rw [remaining_new] at hm
  obtain ⟨hdata, houtcome⟩ := Prod.mk.inj hm
  refine ⟨⟨_, hdata.symm, ?_⟩, ?_⟩
  · rw [houtcome]
    exact pollRead_answers output _ hms hmr
  · intro frames hframes
    simp only [expected, hframes.parse, deliver_clean]

-- A transport that moves one byte at a time.
def trickle (incoming : Bytes) : Environment :=
  { incoming, sent := [], reads := fun _ => .ready 0, writes := fun _ => .ready 0,
    masks := fun _ => some fun _ => 0 }

private theorem trickle_reliable (incoming : Bytes) : (trickle incoming).Reliable where
  accepting := fun _ => .inr ⟨0, rfl⟩
  reads := by simp [trickle]
  masks := by simp [trickle]

-- A message in two fragments with a ping between them, then a Close.
private theorem fragments_accepted :
    Accepts true false ([0x02, 2, 0x60] ++ [0x61, 0x89, 0, 0x80, 1, 0x62, 0x88, 0])
      [⟨0x2, [0x60, 0x61]⟩, ⟨0x9, []⟩, ⟨0x0, [0x62]⟩, ⟨0x8, []⟩] :=
  .cons false true [0x02, 2] [0x60, 0x61] _ (beginFrame 0x2 2 fun _ => 0) _ rfl rfl
    (.cons true true [0x89, 0] [] _ (beginFrame 0x9 0 fun _ => 0) _ rfl rfl
      (.cons true false [0x80, 1] [0x62] _ (beginFrame 0x0 1 fun _ => 0) _ rfl rfl
        (.cons false false [0x88, 0] [] [] (beginFrame 0x8 0 fun _ => 0) [] rfl rfl (.nil false))))

theorem read_segmentation_independent_fragments :
    ∃ rest, delivered ((new (trickle [0x61, 0x89, 0, 0x80, 1, 0x62, 0x88, 0])
        [0x02, 2, 0x60] [0x5f] true).pollReads [4, 4, 4]).1 ++ rest = [0x5f, 0x60, 0x61, 0x62] := by
  obtain ⟨⟨rest, h, _⟩, hf⟩ := read_segmentation_independent
    (trickle [0x61, 0x89, 0, 0x80, 1, 0x62, 0x88, 0]) (trickle_reliable _) [0x02, 2, 0x60] [0x5f]
    true [4, 4, 4] 4
  exact ⟨rest, h.trans (congrArg ([0x5f] ++ Prod.fst ·) (hf _ fragments_accepted))⟩

end WebSocketStream

end SingBox.Vless
