/-
AmbiRTC/Pipeline.lean

The encode pipeline of a session (mcu/internal/session/pipeline.go).  The mix
clock puts a frame from the pool into `mixCh` (`SubmitMix`, `pushFrame`); the
dispatcher hands each frame to `K` workers through a queue each; every worker
encodes the channels it owns; the worker that brings the reference count to zero
sends the bundles of the frame (bundled mode) and returns it to the pool.  In
legacy mode each encoded channel is sent at once.  `sendLoop` takes packets off
`sendCh`.

Every action is one atomic step of one goroutine: a channel operation, an atomic
counter, or work on data that no other goroutine touches meanwhile.  An action
carries what the code under it may choose (which pooled frame `sync.Pool` hands
out, what an encoder returns, whether `sendLoop` is congested).  The room submits
mixes of all `channels` channels, `frameSize` samples each, so `SubmitMix`
overwrites the whole frame.  Shutting down is left out.

What each use of a frame has been through is recorded on the side (`Use`); no
step depends on it.
-/
import AmbiRTC.DropOldest
import AmbiRTC.FanOut
import AmbiRTC.Layout
import AmbiRTC.Packet
import AmbiRTC.Runs

namespace AmbiRTC

namespace Pipeline

open DropOldest FanOut

variable {A : Type} {K : ℕ}

/-! ### Frames and packets -/

/-- `mixCap`. -/
def mixCap : ℕ := 8

/-- `sendCap`. -/
def sendCap : ℕ := channels * 8

/-- The buffer of each `encJobChs[w]`. -/
def jobCap : ℕ := 2

/-- `frame`: the PCM of a channel is a value of type `A`, and the reference count,
at most the number of workers, is not bounded by 32 bits. -/
structure MixFrame (A : Type) where
  pcm : ℕ → A
  frameTs : UInt32
  isRec : Bool
  refs : ℤ
  encoded : ℕ → List UInt8
  /-- the `SubmitMix` call it was last acquired by -/
  use : ℕ

/-- A buffer on its way to `dc.Send`, with the use it was made in and, in legacy
mode, the packet it was marshalled from. -/
structure Outgoing where
  buf : List UInt8
  use : ℕ
  packet : Option Packet

/-- What the session is configured with: the wire format, the frame size, and
the PCM of a new frame. -/
structure Config (A : Type) where
  bundled : Bool
  frameSize : ℕ
  silence : A

/-- `s.layout`. -/
def Config.layout (cfg : Config A) : List (List UInt8) :=
  if cfg.bundled then planLayout cfg.frameSize else []

/-- `framePool.New`. -/
def newFrame (cfg : Config A) : MixFrame A where
  pcm := fun _ => cfg.silence
  frameTs := 0
  isRec := false
  refs := 0
  encoded := fun _ => []
  use := 0

/-- `channelRange`, as the list of channels from `lo` up to `hi`. -/
def channelRange (K : ℕ) (w : Fin K) : List ℕ :=
  let lo := w.val * channels / K
  let hi := (w.val + 1) * channels / K
  List.range' lo (hi - lo)

/-! ### Goroutines -/

/-- Where `SubmitMix` is. -/
inductive Mixer (A : Type) where
  | idle
  | filling (fr : ℕ) (pcm : ℕ → A) (frameTs : UInt32) (isRec : Bool)
  | pushing (fr : ℕ) (stage : Stage)
  /-- about to release `old`, then to go on pushing, if there is anything left to push -/
  | recycling (old : ℕ) (next : Option (ℕ × Stage))

/-- What `SubmitMix` goes back to after releasing a displaced frame. -/
def Mixer.next : Option (ℕ × Stage) → Mixer A
  | some (fr, stage) => .pushing fr stage
  | none => .idle

/-- Where `encodeDispatcher` is: worker `w` is the next to get `fr`. -/
inductive Dispatcher where
  | idle
  | fanning (fr w : ℕ)

/-- What a worker goes back to after pushing a packet. -/
inductive Next where
  | encode (cs : List ℕ)
  | bundle (groups : List (List UInt8))

/-- Where an `encodeWorker` is. -/
inductive Worker where
  | idle
  | encoding (fr : ℕ) (cs : List ℕ)
  | bundling (fr : ℕ) (groups : List (List UInt8))
  | pushing (fr : ℕ) (item : Outgoing) (stage : Stage) (next : Next)
  | releasing (fr : ℕ)

/-- Back from `pushSend`. -/
def resume (fr : ℕ) : Next → Worker
  | .encode cs => .encoding fr cs
  | .bundle groups => .bundling fr groups

/-! ### Uses -/

/-- How often each thing has happened in one use of a frame. -/
@[ext]
structure Life (K : ℕ) where
  dispatched : ℕ
  done : Fin K → ℕ
  bundled : ℕ
  released : ℕ

namespace Life

/-- Nothing yet. -/
def new : Life K := ⟨0, fun _ => 0, 0, 0⟩

/-- The frame was handed to the dispatcher. -/
def dispatch (l : Life K) : Life K := { l with dispatched := l.dispatched + 1 }

/-- Worker `w` is done with the frame, and runs `sendBundled` on it or does not. -/
def finish (l : Life K) (w : Fin K) (bundles : Bool) : Life K :=
  { l with
    done := Function.update l.done w (l.done w + 1)
    bundled := if bundles then l.bundled + 1 else l.bundled }

/-- The frame was put into the pool. -/
def release (l : Life K) : Life K := { l with released := l.released + 1 }

end Life

/-- The record of one use: what `SubmitMix` was given, for each channel what was
encoded and with which result, and what was marshalled for each group. -/
structure Use (A : Type) (K : ℕ) where
  pcm : ℕ → A
  life : Life K
  encoded : ℕ → Option (A × Option (List UInt8))
  marshalled : List (List UInt8 × List ChannelPayload)

namespace Use

/-- The record of a use that has just begun. -/
def new (pcm : ℕ → A) : Use A K := ⟨pcm, .new, fun _ => none, []⟩

/-- Channel `c` was encoded from `pcm`; no result is an encoder error. -/
def encode (u : Use A K) (c : ℕ) (pcm : A) (result : Option (List UInt8)) : Use A K :=
  { u with encoded := Function.update u.encoded c (some (pcm, result)) }

/-- The payloads `chans` were marshalled for a group. -/
def marshal (u : Use A K) (group : List UInt8) (chans : List ChannelPayload) : Use A K :=
  { u with marshalled := u.marshalled ++ [(group, chans)] }

end Use

/-! ### The state -/

/-- The pipeline of one session. -/
structure State (A : Type) (K : ℕ) where
  heap : ℕ → MixFrame A
  allocated : ℕ
  pool : List ℕ
  /-- pooled frames the garbage collector has taken -/
  collected : List ℕ
  mixer : Mixer A
  mixCh : List ℕ
  dispatcher : Dispatcher
  jobs : Fin K → List ℕ
  workers : Fin K → Worker
  encSeq : ℕ → UInt32
  sendCh : List Outgoing
  /-- what has been handed to `dc.Send` -/
  sent : List Outgoing
  encCount : UInt64
  mixDrops : UInt64
  sendDrops : UInt64
  /-- frames dispatched and not released yet, oldest first -/
  flight : List ℕ
  /-- how often `SubmitMix` has been called, and the record of each call -/
  uses : ℕ
  log : ℕ → Use A K

/-- A session whose pipeline has just been started. -/
def initial (cfg : Config A) : State A K where
  heap := fun _ => newFrame cfg
  allocated := 0
  pool := []
  collected := []
  mixer := .idle
  mixCh := []
  dispatcher := .idle
  jobs := fun _ => []
  workers := fun _ => .idle
  encSeq := fun _ => 0
  sendCh := []
  sent := []
  encCount := 0
  mixDrops := 0
  sendDrops := 0
  flight := []
  uses := 0
  log := fun _ => Use.new fun _ => cfg.silence

namespace State

/-- Change a frame. -/
def setFrame (s : State A K) (fr : ℕ) (f : MixFrame A → MixFrame A) : State A K :=
  { s with heap := Function.update s.heap fr (f (s.heap fr)) }

/-- Record something about the present use of a frame. -/
def note (s : State A K) (fr : ℕ) (f : Use A K → Use A K) : State A K :=
  { s with log := Function.update s.log (s.heap fr).use (f (s.log (s.heap fr).use)) }

/-- Move a worker on. -/
def setWorker (s : State A K) (w : Fin K) (wk : Worker) : State A K :=
  { s with workers := Function.update s.workers w wk }

end State

/-! ### Steps -/

/-- What may happen next. -/
inductive Action (A : Type) (K : ℕ) where
  /-- `SubmitMix` is called, and acquires a pooled frame or a new one -/
  | submit (pcm : ℕ → A) (frameTs : UInt32) (isRec : Bool) (pooled : Option ℕ)
  /-- `SubmitMix` copies its arguments into the frame -/
  | fill
  /-- a step of `pushFrame` -/
  | pushMix
  /-- `pushFrame` releases the frame it has displaced -/
  | recycle
  /-- the garbage collector takes a pooled frame -/
  | collect (fr : ℕ)
  /-- the dispatcher receives a frame and stores its reference count -/
  | dispatch
  /-- the dispatcher sends the job to the next worker -/
  | sendJob
  | take (w : Fin K)
  /-- worker `w` encodes its next channel; no result is an encoder error -/
  | encode (w : Fin K) (result : Option (List UInt8))
  /-- a step of `pushSend` by worker `w` -/
  | push (w : Fin K)
  /-- worker `w` decrements the reference count -/
  | finish (w : Fin K)
  /-- worker `w` marshals the next group of `sendBundled` -/
  | marshal (w : Fin K)
  | release (w : Fin K)
  /-- `sendLoop` takes a packet and hands it to `dc.Send` -/
  | transmit
  /-- `sendLoop` takes a packet and drops it, being congested -/
  | discard

/-- What `acquireFrame` does to the frame it returns: in bundled mode it clears the
payloads of the last use. -/
def MixFrame.ready (cfg : Config A) (use : ℕ) (frame : MixFrame A) : MixFrame A :=
  { frame with
    encoded := if cfg.bundled then fun _ => [] else frame.encoded
    use := use }

/-- `acquireFrame`, and the beginning of a use of the frame it returns: one of the
pool, or a new one. -/
def acquireFrame (cfg : Config A) (s : State A K) (pcm : ℕ → A) (pooled : Option ℕ) :
    Option (ℕ × State A K) :=
  let s' := { s with uses := s.uses + 1, log := Function.update s.log s.uses (Use.new pcm) }
  match pooled with
  | some fr =>
    if fr ∈ s.pool then
      some (fr, { s' with
        pool := s.pool.erase fr
        heap := Function.update s.heap fr ((s.heap fr).ready cfg s.uses) })
    else none
  | none =>
    some (s.allocated, { s' with
      allocated := s.allocated + 1
      heap := Function.update s.heap s.allocated ((newFrame cfg).ready cfg s.uses) })

/-- `releaseFrame`, and the end of the use. -/
def releaseFrame (s : State A K) (fr : ℕ) : State A K :=
  { s with pool := fr :: s.pool }.note fr fun u => { u with life := u.life.release }

/-- The legacy packet of a channel. -/
def legacyPacket (s : State A K) (fr c : ℕ) (payload : List UInt8) : Packet where
  isRec := (s.heap fr).isRec
  chIdx := UInt8.ofNat c
  seqNum := s.encSeq c
  frameTs := (s.heap fr).frameTs
  payload := payload

/-- The channels of a group that have a payload, as `sendBundled` collects them. -/
def groupPayloads (encoded : ℕ → List UInt8) (group : List UInt8) : List ChannelPayload :=
  group.filterMap fun ch =>
    if 0 < (encoded ch.toNat).length then some ⟨ch, encoded ch.toNat⟩ else none

/-- One step of a goroutine, or of the garbage collector; none where the goroutine
would block, or is somewhere else in its code. -/
def step (cfg : Config A) (s : State A K) : Action A K → Option (State A K)
  | .submit pcm frameTs isRec pooled =>
    match s.mixer with
    | .idle => do
      let (fr, s) ← acquireFrame cfg s pcm pooled
      return { s with mixer := .filling fr pcm frameTs isRec }
    | _ => none
  | .fill =>
    match s.mixer with
    | .filling fr pcm frameTs isRec =>
      some { s.setFrame fr fun frame => { frame with pcm, frameTs, isRec } with
        mixer := .pushing fr .attempt }
    | _ => none
  | .pushMix =>
    match s.mixer with
    | .pushing fr stage =>
      let pushed := DropOldest.push mixCap s.mixCh fr stage
      some { s with
        mixCh := pushed.queue
        mixer :=
          match pushed.dropped, pushed.next with
          | some old, next => .recycling old (next.map fun stage => (fr, stage))
          | none, some stage => .pushing fr stage
          | none, none => .idle }
    | _ => none
  | .recycle =>
    match s.mixer with
    | .recycling old next =>
      some { releaseFrame s old with mixDrops := s.mixDrops + 1, mixer := .next next }
    | _ => none
  | .collect fr =>
    if fr ∈ s.pool then
      some { s with pool := s.pool.erase fr, collected := fr :: s.collected }
    else none
  | .dispatch =>
    match s.dispatcher, s.mixCh with
    | .idle, fr :: rest =>
      some (({ s with
          mixCh := rest
          dispatcher := .fanning fr 0
          flight := s.flight ++ [fr] }.setFrame fr fun frame => { frame with refs := K }).note fr
        fun u => { u with life := u.life.dispatch })
    | _, _ => none
  | .sendJob =>
    match s.dispatcher with
    | .fanning fr w =>
      if hw : w < K then
        if (s.jobs ⟨w, hw⟩).length < jobCap then
          some { s with
            jobs := Function.update s.jobs ⟨w, hw⟩ (s.jobs ⟨w, hw⟩ ++ [fr])
            dispatcher := if w + 1 < K then .fanning fr (w + 1) else .idle }
        else none
      else none
    | .idle => none
  | .take w =>
    match s.workers w, s.jobs w with
    | .idle, fr :: rest =>
      some ({ s with jobs := Function.update s.jobs w rest }.setWorker w
        (.encoding fr (channelRange K w)))
    | _, _ => none
  | .encode w result =>
    match s.workers w with
    | .encoding fr (c :: cs) =>
      let noted := s.note fr fun u => u.encode c ((s.heap fr).pcm c) result
      match result with
      -- the error is logged, and the channel keeps what `acquireFrame` left it with
      | none => some (noted.setWorker w (.encoding fr cs))
      | some payload =>
        let counted := { noted with encCount := s.encCount + 1 }
        if cfg.bundled then
          some ((counted.setFrame fr fun frame =>
            { frame with encoded := Function.update frame.encoded c payload }).setWorker w
              (.encoding fr cs))
        else
          let p := legacyPacket s fr c payload
          let numbered :=
            { counted with encSeq := Function.update s.encSeq c (s.encSeq c + 1) }
          match p.marshalBinary with
          -- the number is used up all the same
          | .error _ => some (numbered.setWorker w (.encoding fr cs))
          | .ok buf =>
            some (numbered.setWorker w
              (.pushing fr ⟨buf, (s.heap fr).use, some p⟩ .attempt (.encode cs)))
    | _ => none
  | .push w =>
    match s.workers w with
    | .pushing fr item stage next =>
      let pushed := DropOldest.push sendCap s.sendCh item stage
      some ({ s with
          sendCh := pushed.queue
          sendDrops := if pushed.dropped.isSome then s.sendDrops + 1 else s.sendDrops }.setWorker w
        (match pushed.next with
        | some stage => .pushing fr item stage next
        | none => resume fr next))
    | _ => none
  | .finish w =>
    match s.workers w with
    | .encoding fr [] =>
      let refs := (s.heap fr).refs - 1
      let isLast := decide (refs = 0)
      some (((s.setFrame fr fun frame => { frame with refs }).note fr fun u =>
        { u with life := u.life.finish w (isLast && cfg.bundled) }).setWorker w
          (if isLast then
            if cfg.bundled then .bundling fr cfg.layout else .releasing fr
          else .idle))
    | _ => none
  | .marshal w =>
    match s.workers w with
    | .bundling fr [] => some (s.setWorker w (.releasing fr))
    | .bundling fr (group :: groups) =>
      let chans := groupPayloads (s.heap fr).encoded group
      let noted := s.note fr fun u => u.marshal group chans
      if chans.length = 0 then some (noted.setWorker w (.bundling fr groups))
      else
        match marshalBundle (s.heap fr).frameTs chans (s.heap fr).isRec with
        | .error _ => some (noted.setWorker w (.bundling fr groups))
        | .ok buf =>
          some (noted.setWorker w
            (.pushing fr ⟨buf, (s.heap fr).use, none⟩ .attempt (.bundle groups)))
    | _ => none
  | .release w =>
    match s.workers w with
    | .releasing fr =>
      some ({ releaseFrame s fr with flight := s.flight.erase fr }.setWorker w .idle)
    | _ => none
  | .transmit =>
    match s.sendCh with
    | item :: rest => some { s with sendCh := rest, sent := s.sent ++ [item] }
    | [] => none
  | .discard =>
    match s.sendCh with
    | _ :: rest => some { s with sendCh := rest, sendDrops := s.sendDrops + 1 }
    | [] => none

end Pipeline

end AmbiRTC
