import Mec.Radar.Port

/-!
# Several radar processors

The static variables of `radar_read_data` are shared by all processors of the
process and survive `radar_processor_stop` and `radar_processor_start`.
`radarsStep` is any number of processors over one parser. A processor is
`Independent` if its calls since its last start return what they would return
with a parser of its own in the initial state. That holds in the runs in which
no byte is read by a processor while the parser is inside a frame that another
one, or the same before a restart, has begun (`Radars.Unshared`).
-/

namespace Mec

open Lib.Lts

variable {P K : Type}

structure Radars (P : Type) where
  parser : Parser
  /-- The open ports and what waits in them; `fd` is -1 in the others. -/
  port : P → Option (List UInt8)
  /-- The processor that read the last byte, if it was not started since. No
  step reads this history variable. -/
  last : Option P

inductive RadarsCall (P : Type) where
  | call (x : P) (c : PortCall)
  /-- `radar_processor_start`; `port` is `none` if the device does not open. -/
  | start (x : P) (port : Option (List UInt8))
  | stop (x : P)

def Radars.start : Radars P := ⟨.start, fun _ => none, none⟩

section Step

variable [DecidableEq P]

def Radars.setPort (s : Radars P) (x : P) (port : Option (List UInt8)) : Radars P :=
  { s with port := Function.update s.port x port }

/-- What processor `x` did since its last start: the bytes that waited then, and
its calls. `none` if it is not running. -/
def sinceStep (x : P) (acc : Option (List UInt8 × List (PortCall × Option (ReadReply K)))) :
    RadarsCall P × Option (ReadReply K) →
    Option (List UInt8 × List (PortCall × Option (ReadReply K)))
  | (.call y c, e) => if y = x then acc.map fun w => (w.1, w.2 ++ [(c, e)]) else acc
  | (.start y port, _) => if y = x then port.map fun line => (line, []) else acc
  | (.stop y, _) => if y = x then none else acc

def since (x : P) (tr : List (RadarsCall P × Option (ReadReply K))) :
    Option (List UInt8 × List (PortCall × Option (ReadReply K))) :=
  tr.foldl (sinceStep x) none

theorem since_snoc (x : P) (tr : List (RadarsCall P × Option (ReadReply K)))
    (entry : RadarsCall P × Option (ReadReply K)) :
    since x (tr ++ [entry]) = sinceStep x (since x tr) entry := by
  rw [since, List.foldl_append]
  rfl

variable [Field K]

def radarsStep (s : Radars P) : RadarsCall P → Option (Radars P × Option (ReadReply K))
  | .call x (.arrive bytes) =>
    match s.port x with
    | none => none
    | some line => some (s.setPort x (some (line ++ bytes)), none)
  | .call x (.read now) =>
    match s.port x with
    | none => some (s, some ⟨-1, none⟩)
    | some line =>
      let r : ReadResult K := radarReadData now s.parser line
      some ({ s.setPort x (some r.line) with
        parser := r.parser
        last := if line = [] then s.last else some x }, some ⟨r.code, r.detection⟩)
  | .start x port =>
    some ({ s.setPort x port with last := if s.last = some x then none else s.last }, none)
  | .stop x => some (s.setPort x none, none)

/-- Processor `x` does what it would do with a parser of its own. -/
def Independent (x : P) (tr : List (RadarsCall P × Option (ReadReply K))) : Prop :=
  ∀ line calls, since x tr = some (line, calls) →
    ∃ own : Port, Run portStep ⟨.start, line⟩ calls own

/-- A byte is read between frames, or inside a frame whose bytes so far the same
processor has read since its start. -/
def Radars.Unshared (s : Radars P) : RadarsCall P → Prop
  | .call x (.read _) =>
    (s.port x).getD [] = [] ∨ s.parser.state = .idle ∨ s.last = some x
  | _ => True

instance (s : Radars P) : ∀ a, Decidable (s.Unshared a)
  | .call _ (.read _) => inferInstanceAs (Decidable (_ ∨ _))
  | .call _ (.arrive _) | .start _ _ | .stop _ => inferInstanceAs (Decidable True)

end Step

/-! ## Parsers that cannot be told apart -/

/-- The two parsers are at the same place of the same frame. -/
structure Similar (p q : Parser) : Prop where
  state_eq : p.state = q.state
  data_eq : p.state = .data → p.frameIdx = q.frameIdx ∧ p.received = q.received
  payload_eq : p.state = .check → p.payload = q.payload

theorem similar_idle {p q : Parser} (hp : p.state = .idle) (hq : q.state = .idle) :
    Similar p q where
  state_eq := hp.trans hq.symm
  data_eq h := by rw [hp] at h; cases h
  payload_eq h := by rw [hp] at h; cases h

theorem Similar.feed_data {p q : Parser} (h : Similar p q) (hs : p.state = .data) (ch : UInt8) :
    (feed p ch).2 = (feed q ch).2 ∧ Similar (feed p ch).1 (feed q ch).1 := by
  have hs' : q.state = .data := h.state_eq ▸ hs
  obtain ⟨hidx, hreceived⟩ := h.data_eq hs
  obtain ⟨hnone, hidx₁, hreceived₁, hstate₁⟩ := Mec.feed_data hs ch
  obtain ⟨hnone', hidx₂, hreceived₂, hstate₂⟩ := Mec.feed_data hs' ch
  have hidxs : (feed p ch).1.frameIdx = (feed q ch).1.frameIdx := by rw [hidx₁, hidx₂, hidx]
  have hbytes : (feed p ch).1.received = (feed q ch).1.received := by
    rw [hreceived₁, hreceived₂, hreceived]
  refine ⟨hnone.trans hnone'.symm, ?_, fun _ => ⟨hidxs, hbytes⟩, fun hcheck => ?_⟩
  · rw [hstate₁, hstate₂, hidx]
  · have hfull : (feed p ch).1.frameIdx = 14 := by
      rw [hstate₁] at hcheck
      split at hcheck
      · next hlast => rw [hidx₁, hlast]
      · cases hcheck
    refine Vector.toList_inj.mp ?_
    rw [Parser.payload_toList hfull, Parser.payload_toList (hidxs ▸ hfull), hbytes]

/-- One byte keeps two parsers alike. -/
theorem Similar.feed {p q : Parser} (h : Similar p q) (ch : UInt8) :
    (feed p ch).2 = (feed q ch).2 ∧ Similar (feed p ch).1 (feed q ch).1 := by
  cases hs : p.state with
  | idle =>
    have hs' : q.state = .idle := h.state_eq ▸ hs
    rw [feed_idle hs, feed_idle hs']
    refine ⟨rfl, ?_⟩
    by_cases hch : ch = 0xAA
    · rw [if_pos hch, if_pos hch]
      exact ⟨rfl, nofun, nofun⟩
    · rw [if_neg hch, if_neg hch]
      exact h
  | head1 =>
    have hs' : q.state = .head1 := h.state_eq ▸ hs
    by_cases hch : ch = 0x55
    · rw [hch, feed_head1_sync hs, feed_head1_sync hs']
      exact ⟨rfl, rfl, fun _ => ⟨rfl, rfl⟩, nofun⟩
    · rw [feed_head1 hs hch, feed_head1 hs' hch]
      exact ⟨rfl, similar_idle rfl rfl⟩
  | head2 =>
    have hs' : q.state = .head2 := h.state_eq ▸ hs
    rw [feed_head2 hs, feed_head2 hs']
    exact ⟨rfl, h⟩
  | data => exact h.feed_data hs ch
  | check =>
    have hs' : q.state = .check := h.state_eq ▸ hs
    rw [feed_check hs, feed_check hs', h.payload_eq hs]
    exact ⟨rfl, similar_idle rfl rfl⟩

variable [Field K]

theorem Similar.radarReadData (now : Timeval) (line : List UInt8) {p q : Parser}
    (h : Similar p q) :
    (radarReadData now p line : ReadResult K).code = (radarReadData now q line : ReadResult K).code ∧
    (radarReadData now p line : ReadResult K).detection =
      (radarReadData now q line : ReadResult K).detection ∧
    (radarReadData now p line : ReadResult K).line = (radarReadData now q line : ReadResult K).line ∧
    Similar (radarReadData now p line : ReadResult K).parser
      (radarReadData now q line : ReadResult K).parser := by
  induction line generalizing p q with
  | nil => exact ⟨rfl, rfl, rfl, h⟩
  | cons ch line ih =>
    obtain ⟨hout, hnext⟩ := h.feed ch
    cases hf : (Mec.feed p ch).2 with
    | none =>
      rw [radarReadData_none hf, radarReadData_none (hout ▸ hf)]
      exact ih hnext
    | some payload =>
      rw [radarReadData_some hf, radarReadData_some (hout ▸ hf)]
      exact ⟨rfl, rfl, rfl, hnext⟩

/-! ## The invariant -/

variable [DecidableEq P]

/-- The shared parser serves `x` as its own parser `q` would: it is similar if
`x` read the last byte, and `q` is between frames if not. -/
def Radars.Serves (s : Radars P) (x : P) (q : Parser) : Prop :=
  if s.last = some x then Similar s.parser q else q.state = .idle

theorem Radars.Serves.similar {s : Radars P} {x : P} {q : Parser} (h : s.Serves x q)
    (hshared : s.parser.state = .idle ∨ s.last = some x) : Similar s.parser q := by
  unfold Radars.Serves at h
  split at h
  · exact h
  · next hlast => exact similar_idle (hshared.resolve_right hlast) h

/-- Once another processor has read a byte between frames, `x` is between frames. -/
theorem Radars.Serves.idle {s : Radars P} {x y : P} {q : Parser} (h : s.Serves x q)
    (hxy : x ≠ y) (hshared : s.parser.state = .idle ∨ s.last = some y) : q.state = .idle := by
  unfold Radars.Serves at h
  split at h
  · next hlast =>
    have hidle : s.parser.state = .idle := by
      rcases hshared with hidle | hy
      · exact hidle
      · rw [hlast] at hy
        exact absurd (Option.some.inj hy) hxy
    rw [← h.state_eq, hidle]
  · exact h

/-- What `x` did since its start, `did`, is what it would do on its own, and it
is served. -/
def Radars.ApartAt (s : Radars P) (x : P) :
    Option (List UInt8 × List (PortCall × Option (ReadReply K))) → Prop
  | none => s.port x = none
  | some (line, calls) => ∃ own : Port, Run portStep ⟨.start, line⟩ calls own ∧
      s.port x = some own.line ∧ s.Serves x own.parser

def Radars.Apart (tr : List (RadarsCall P × Option (ReadReply K))) (s : Radars P) : Prop :=
  ∀ x, s.ApartAt x (since x tr)

section Apart

variable {tr : List (RadarsCall P × Option (ReadReply K))} {s t : Radars P} {x : P}
  {line : List UInt8}

theorem Radars.Apart.running (h : s.Apart tr) (hport : s.port x = some line) :
    ∃ line₀ calls q, since x tr = some (line₀, calls) ∧
      Run (portStep (K := K)) ⟨.start, line₀⟩ calls ⟨q, line⟩ ∧ s.Serves x q := by
  have hx := h x
  cases hsince : since x tr with
  | none =>
    rw [hsince] at hx
    exact absurd (hport.symm.trans hx) (Option.some_ne_none _)
  | some w =>
    rw [hsince] at hx
    obtain ⟨⟨q, line'⟩, hrun, hline, hserves⟩ := hx
    rw [hport] at hline
    cases hline
    exact ⟨w.1, w.2, q, rfl, hrun, hserves⟩

theorem Radars.Apart.closed (h : s.Apart tr) (hport : s.port x = none) : since x tr = none := by
  have hx := h x
  cases hsince : since x tr with
  | none => rfl
  | some w =>
    rw [hsince] at hx
    obtain ⟨own, -, hline, -⟩ := hx
    exact absurd (hline.symm.trans hport) (Option.some_ne_none _)

theorem Radars.Apart.other (h : s.Apart tr) {entry : RadarsCall P × Option (ReadReply K)}
    (hsince : sinceStep x (since x tr) entry = since x tr) (hport : t.port x = s.port x)
    (hserves : ∀ q, s.Serves x q → t.Serves x q) : t.ApartAt x (since x (tr ++ [entry])) := by
  have hx := h x
  rw [since_snoc, hsince]
  cases hw : since x tr with
  | none =>
    rw [hw] at hx
    exact hport.trans hx
  | some w =>
    rw [hw] at hx
    obtain ⟨own, hrun, hline, hs⟩ := hx
    exact ⟨own, hrun, hport.trans hline, hserves _ hs⟩

theorem Radars.apart_own {c : PortCall} {e : Option (ReadReply K)} {line₀ : List UInt8}
    {calls : List (PortCall × Option (ReadReply K))} {own own' : Port}
    (hsince : since x tr = some (line₀, calls)) (hrun : Run portStep ⟨.start, line₀⟩ calls own)
    (hstep : portStep own c = some (own', e)) (hport : t.port x = some own'.line)
    (hserves : t.Serves x own'.parser) : t.ApartAt x (since x (tr ++ [(.call x c, e)])) := by
  rw [since_snoc, hsince]
  simp only [sinceStep, if_true, Option.map_some]
  exact ⟨own', hrun.snoc hstep, hport, hserves⟩

theorem Radars.Apart.keep_parser (h : s.Apart tr) {y : P} {line' : List UInt8}
    {c : PortCall} {e : Option (ReadReply K)} (hport : s.port y = some line)
    (hstep : ∀ q, portStep ⟨q, line⟩ c = some (⟨q, line'⟩, e)) :
    (s.setPort y (some line')).Apart (tr ++ [(.call y c, e)]) := by
  intro x
  by_cases hyx : y = x
  · subst hyx
    obtain ⟨line₀, calls, q, hsince, hrun, hserves⟩ := h.running hport
    exact Radars.apart_own hsince hrun (hstep q) (Function.update_self ..) hserves
  · exact h.other (if_neg hyx) (Function.update_of_ne (Ne.symm hyx) ..) fun q hq => hq

end Apart

theorem radarsStep_apart (tr : List (RadarsCall P × Option (ReadReply K))) (s : Radars P)
    (a : RadarsCall P) (t : Radars P) (e : Option (ReadReply K)) (h : s.Apart tr)
    (hshared : s.Unshared a) (hs : radarsStep s a = some (t, e)) : t.Apart (tr ++ [(a, e)]) := by
  intro x
  cases a with
  | call y c =>
    cases c with
    | arrive bytes =>
      simp only [radarsStep] at hs
      cases hport : s.port y with
      | none => rw [hport] at hs; cases hs
      | some line =>
        rw [hport] at hs
        cases hs
        exact h.keep_parser hport (fun _ => rfl) x
    | read now =>
      simp only [radarsStep] at hs
      cases hport : s.port y with
      | none =>
        rw [hport] at hs
        cases hs
        by_cases hyx : y = x
        · subst hyx
          rw [since_snoc, h.closed hport]
          simp only [sinceStep, if_true, Option.map_none]
          exact hport
        · exact h.other (if_neg hyx) rfl fun q hq => hq
      | some line =>
        rw [hport] at hs
        cases hs
        by_cases hnil : line = []
        · -- a call that finds nothing to read leaves everything as it is
          subst hnil
          exact h.keep_parser hport (fun _ => rfl) x
        · have hcond : s.parser.state = .idle ∨ s.last = some y := by
            have hor : (s.port y).getD [] = [] ∨ s.parser.state = .idle ∨ s.last = some y := hshared
            rw [hport] at hor
            exact hor.resolve_left hnil
          by_cases hyx : y = x
          · subst hyx
            obtain ⟨line₀, calls, q, hsince, hrun, hserves⟩ := h.running hport
            obtain ⟨hcode, hdet, hline, hsimilar⟩ :=
              (hserves.similar hcond).radarReadData (K := K) now line
            rw [hcode, hdet]
            refine Radars.apart_own hsince hrun rfl ?_ ?_
            · show Function.update s.port y _ y = _
              rw [Function.update_self, hline]
            · unfold Radars.Serves
              simp only [if_neg hnil, if_true]
              exact hsimilar
          · refine h.other (if_neg hyx) (Function.update_of_ne (Ne.symm hyx) ..) fun q hq => ?_
            unfold Radars.Serves
            simp only [if_neg hnil, Option.some.injEq, if_neg hyx]
            exact hq.idle (Ne.symm hyx) hcond
  | start y port =>
    simp only [radarsStep, Option.some.injEq, Prod.mk.injEq] at hs
    obtain ⟨rfl, rfl⟩ := hs
    by_cases hyx : y = x
    · subst hyx
      rw [since_snoc]
      simp only [sinceStep, if_true]
      cases port with
      | none => exact Function.update_self ..
      | some line =>
        refine ⟨⟨.start, line⟩, .nil _, Function.update_self .., ?_⟩
        have hlast : ¬(if s.last = some y then none else s.last) = some y := by
          split
          · exact nofun
          · assumption
        unfold Radars.Serves
        rw [if_neg hlast]
        rfl
    · refine h.other (if_neg hyx) (Function.update_of_ne (Ne.symm hyx) ..) fun q hq => ?_
      unfold Radars.Serves at hq ⊢
      by_cases hlast : s.last = some y
      · rw [if_neg (by rw [hlast]; exact fun h => hyx (Option.some.inj h))] at hq
        simp only [if_pos hlast]
        exact hq
      · simp only [if_neg hlast]
        exact hq
  | stop y =>
    simp only [radarsStep, Option.some.injEq, Prod.mk.injEq] at hs
    obtain ⟨rfl, rfl⟩ := hs
    by_cases hyx : y = x
    · subst hyx
      rw [since_snoc]
      simp only [sinceStep, if_true]
      exact Function.update_self ..
    · exact h.other (if_neg hyx) (Function.update_of_ne (Ne.symm hyx) ..) fun q hq => hq

/-- **When the radars are independent.** In a run in which every byte is read
between frames, or inside a frame the same processor has begun since its start,
every processor does in every session what it would do with a parser of its
own. -/
theorem radars_independent {tr : List (RadarsCall P × Option (ReadReply K))} {s : Radars P}
    (h : Run radarsStep .start tr s)
    (hshared : ∀ tr₁ a e tr₂ t, tr = tr₁ ++ (a, e) :: tr₂ → Run (radarsStep (K := K)) .start tr₁ t →
      t.Unshared a) (x : P) :
    ∀ tr₁ tr₂, tr = tr₁ ++ tr₂ → Independent x tr₁ := by
  rintro tr₁ tr₂ rfl line calls hsince
  obtain ⟨t, h₁, -⟩ := h.split
  have hstart : (Radars.start : Radars P).Apart ([] : List (RadarsCall P × Option (ReadReply K))) :=
    fun _ => rfl
  have happart : t.Apart tr₁ := h₁.history_of radarsStep_apart hstart
    fun tr₃ a e tr₄ u htr hu => hshared tr₃ a e (tr₄ ++ tr₂) u (by rw [htr]; simp) hu
  have hx := happart x
  rw [hsince] at hx
  obtain ⟨own, hrun, -⟩ := hx
  exact ⟨own, hrun⟩

/-- Two radars read a frame each; then the first reads one in two pieces, and after it the
second its next. -/
def twoRadars : List (RadarsCall Bool) :=
  [.start true (some zeroFrame.bytes), .start false (some zeroFrame.bytes),
    .call true (.read ⟨5, 0⟩), .call false (.read ⟨5, 1⟩),
    .call true (.arrive (zeroFrame.bytes.take 4)), .call true (.read ⟨5, 2⟩),
    .call true (.arrive (zeroFrame.bytes.drop 4)), .call false (.arrive zeroFrame.bytes),
    .call true (.read ⟨5, 3⟩), .call false (.read ⟨5, 4⟩)]

theorem radars_independent_two :
    let tr := (play (radarsStep (P := Bool) (K := ℚ)) .start twoRadars).1
    tr.filterMap (fun x => x.2.map ReadReply.code) = [0, 0, -1, 0, 0] ∧
      Independent true tr ∧ Independent false tr := by
  have hmeets : Meets (radarsStep (P := Bool) (K := ℚ)) Radars.Unshared .start twoRadars := by
    decide +kernel
  have hrun := run_play (radarsStep (P := Bool) (K := ℚ)) .start twoRadars
  have h := radars_independent hrun (meets_play hmeets)
  exact ⟨by decide +kernel, h true _ [] (List.append_nil _).symm, h false _ [] (List.append_nil _).symm⟩

/-- One processor begins a frame, and the other loses the frame it then reads. -/
theorem shared_parser_loses_frame :
    ¬∀ (tr : List (RadarsCall Bool × Option (ReadReply ℚ))) (s : Radars Bool),
      Run radarsStep .start tr s → ∀ x, Independent x tr := by
  intro h
  have hrun : Run (radarsStep (P := Bool) (K := ℚ)) .start
      [(.start true (some [0xAA]), _), (.start false (some zeroFrame.bytes), _),
        (.call true (.read ⟨5, 0⟩), _), (.call false (.read ⟨5, 1⟩), _)] _ :=
    .cons rfl (.cons rfl (.cons rfl (.cons rfl (.nil _))))
  obtain ⟨own, hown⟩ := h _ _ hrun false zeroFrame.bytes [(.read ⟨5, 1⟩, some ⟨-1, none⟩)] rfl
  cases hown with
  | cons hs _ =>
    have hcode : some (some (0 : Int)) = some (some (-1)) :=
      congrArg (fun r => r.map fun r => r.2.map ReadReply.code) hs
    exact absurd hcode (by decide)

end Mec
