import Mec.Lib.Lts
import Mec.Lib.Mealy
import Mec.Radar.Resync

/-!
# One radar port

`portStep` is a serial port with the parser behind it: bytes arrive at any
time, and a call of `radar_read_data` reads what has arrived until a frame
checks out. However the stream is cut into calls, the calls read it once, in
order, and report what the parser puts out byte by byte
(`portStep_reads`). Soundness and completeness of the parser are then facts
about `outputs feed`.
-/

namespace Mec

open Lib.Lts Lib.Mealy

variable {K : Type}

structure Port where
  parser : Parser
  /-- The bytes that have arrived and were not read. -/
  line : List UInt8

inductive PortCall where
  | arrive (bytes : List UInt8)
  /-- A call of `radar_read_data`; `gettimeofday` gives `now`. -/
  | read (now : Timeval)

/-- What a call of `radar_read_data` returned and wrote. -/
structure ReadReply (K : Type) where
  code : Int
  detection : Option (RadarDetection K)

def arrivedBytes : PortCall × Option (ReadReply K) → List UInt8
  | (.arrive bytes, _) => bytes
  | (.read _, _) => []

def arrived (tr : List (PortCall × Option (ReadReply K))) : List UInt8 := tr.flatMap arrivedBytes

theorem arrived_reads {tr : List (PortCall × Option (ReadReply K))} {nows : List Timeval}
    (h : tr.map Prod.fst = nows.map .read) : arrived tr = [] := by
  induction tr generalizing nows with
  | nil => rfl
  | cons x tr ih =>
    cases nows with
    | nil => cases h
    | cons now nows =>
      obtain ⟨a, e⟩ := x
      obtain ⟨rfl, hrest⟩ := List.cons.inj h
      exact ih hrest

/-- A call that returned 0: its time and what it wrote. -/
def success : PortCall × Option (ReadReply K) → Option (Timeval × Option (RadarDetection K))
  | (.read now, some r) => if r.code = 0 then some (now, r.detection) else none
  | _ => none

def successes (tr : List (PortCall × Option (ReadReply K))) :
    List (Timeval × Option (RadarDetection K)) := tr.filterMap success

theorem success_some {now : Timeval} {r : ReadReply K} (h : r.code = 0) :
    success (.read now, some r) = some (now, r.detection) := if_pos h

theorem success_none {now : Timeval} {r : ReadReply K} (h : r.code = -1) :
    success (.read now, some r) = none := if_neg (by rw [h]; decide)

variable [Field K]

def portStep (s : Port) : PortCall → Option (Port × Option (ReadReply K))
  | .arrive bytes => some ({ s with line := s.line ++ bytes }, none)
  | .read now =>
    let r : ReadResult K := radarReadData now s.parser s.line
    some (⟨r.parser, r.line⟩, some ⟨r.code, r.detection⟩)

/-- The call wrote what the parser made of the payload. -/
def Decodes (call : Timeval × Option (RadarDetection K)) (payload : Vector UInt8 14) : Prop :=
  call.2 = some (decode call.1 payload)

/-- **The cut does not matter.** The calls of a run read what arrived, in order
and once; the parser is where reading it byte by byte leads, and the calls that
return 0 report the payloads put out on the way. -/
theorem portStep_reads {s t : Port} {tr : List (PortCall × Option (ReadReply K))}
    (h : Run portStep s tr t) :
    ∃ used, s.line ++ arrived tr = used ++ t.line ∧ t.parser = after s.parser used ∧
      List.Forall₂ Decodes (successes tr) (outputs feed s.parser used) := by
  induction h with
  | nil s => exact ⟨[], by simp [arrived], rfl, .nil⟩
  | @cons s s' t a e tr hs _ ih =>
    obtain ⟨used, hline, hparser, hout⟩ := ih
    cases a with
    | arrive bytes =>
      cases hs
      refine ⟨used, ?_, hparser, hout⟩
      rw [← hline]
      simp [arrived, arrivedBytes]
    | read now =>
      obtain ⟨first, hfirst, hp, hcases⟩ := radarReadData_outputs (K := K) now s.parser s.line
      cases hs
      dsimp only at hline hparser hout
      rw [hp] at hparser hout
      refine ⟨first ++ used, ?_, ?_, ?_⟩
      · rw [List.append_assoc, ← hline, ← List.append_assoc, ← hfirst]
        simp [arrived, arrivedBytes]
      · rw [after_append]
        exact hparser
      · rw [outputs_append]
        rcases hcases with ⟨hnil, -, hcode, -⟩ | ⟨payload, -, hone, hcode, hd⟩
        · rw [hnil, List.nil_append, successes, List.filterMap_cons_none (success_none hcode)]
          exact hout
        · rw [hone, successes, List.filterMap_cons_some (success_some hcode)]
          exact .cons hd hout

end Mec
