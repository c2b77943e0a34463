import Yeah.Ssh.Exec
import Yeah.Text.Utf8

namespace Yeah.Ssh

open Runs Utf8

/-- Bytes as they come in on one of the two streams of a command. -/
structure Arrival where
  stream : Stream
  bytes : List UInt8

/-- `chunk.toString()` -/
def Arrival.event (a : Arrival) : Event := .data a.stream (String.ofList (decode a.bytes))

/-- The text that the handler of `execStream` is given for a stream. -/
def handedText (stream : Stream) (arrivals : List Arrival) : List Char :=
  ((ExecStream.execStream none (arrivals.map Arrival.event)).onData.filter (·.1 = stream)).flatMap (·.2.toList)

def chunksOf (stream : Stream) (arrivals : List Arrival) : List (List UInt8) :=
  (arrivals.filter (·.stream = stream)).map Arrival.bytes

/-- The bytes of a stream, in whatever pieces they came. -/
def bytesOf (stream : Stream) (arrivals : List Arrival) : List UInt8 := (chunksOf stream arrivals).flatten

section Arrivals

variable {stream : Stream} {arrivals : List Arrival}

theorem run_arrivals {s : ExecStream} (hs : s.channel.closed = false) (arrivals : List Arrival) :
    (run ExecStream.step s (arrivals.map Arrival.event)).onData =
      s.onData ++ arrivals.map fun a => (a.stream, String.ofList (decode a.bytes)) := by
  induction arrivals generalizing s with
  | nil => exact (List.append_nil _).symm
  | cons a arrivals ih =>
      have hstep : ExecStream.step s a.event =
          { s with onData := s.onData ++ [(a.stream, String.ofList (decode a.bytes))] } := by
        simp [ExecStream.step, hs, Arrival.event]
      have hrest : run ExecStream.step s ((a :: arrivals).map Arrival.event) =
          run ExecStream.step (ExecStream.step s a.event) (arrivals.map Arrival.event) := rfl
      have hopen : (ExecStream.step s a.event).channel.closed = false := by
        rw [hstep]
        exact hs
      rw [hrest, ih hopen, hstep, List.map_cons, List.append_assoc]
      rfl

theorem handedText_eq : handedText stream arrivals = (chunksOf stream arrivals).flatMap decode := by
  rw [handedText, ExecStream.execStream, run_arrivals rfl, chunksOf]
  induction arrivals with
  | nil => rfl
  | cons a arrivals ih =>
      by_cases ha : a.stream = stream
      · simpa [ExecStream.opened, ha] using ih
      · simpa [ExecStream.opened, ha] using ih

theorem mem_chunksOf {c : List UInt8} :
    c ∈ chunksOf stream arrivals ↔ ∃ a ∈ arrivals, a.stream = stream ∧ a.bytes = c := by
  simp [chunksOf, and_assoc]

end Arrivals

/-- The text of a stream of UTF-8 is handed over whole exactly if no piece of it begins within a character. -/
theorem handedText_iff (stream : Stream) (arrivals : List Arrival) (text : List Char)
    (h : bytesOf stream arrivals = encode text) :
    handedText stream arrivals = decode (bytesOf stream arrivals) ↔
      ∀ a ∈ arrivals, a.stream = stream → StartsOnCharacter a.bytes := by
  rw [handedText_eq, bytesOf, flatMap_decode_iff h]
  constructor
  · exact fun hc a ha hs => hc a.bytes (mem_chunksOf.2 ⟨a, ha, hs, rfl⟩)
  · intro hc c hmem
    obtain ⟨a, ha, hs, rfl⟩ := mem_chunksOf.1 hmem
    exact hc a ha hs

theorem handedText_stderr :
    handedText .stderr [⟨.stderr, [0xC3, 0xA9]⟩, ⟨.stdout, [0xA9]⟩, ⟨.stderr, [0x21]⟩] =
    decode (bytesOf .stderr [⟨.stderr, [0xC3, 0xA9]⟩, ⟨.stdout, [0xA9]⟩, ⟨.stderr, [0x21]⟩]) := by
  refine (handedText_iff .stderr _ "é!".toList (by decide)).2 ?_
  simp [StartsOnCharacter, isContinuation]

/-- The two bytes of one character, one by one. -/
theorem split_character : bytesOf .stdout [⟨.stdout, [0xC3]⟩, ⟨.stdout, [0xA9]⟩] = encode "é".toList ∧
    handedText .stdout [⟨.stdout, [0xC3]⟩, ⟨.stdout, [0xA9]⟩] = [replacement, replacement] ∧
    handedText .stdout [⟨.stdout, [0xC3]⟩, ⟨.stdout, [0xA9]⟩] ≠
      decode (bytesOf .stdout [⟨.stdout, [0xC3]⟩, ⟨.stdout, [0xA9]⟩]) := by
  decide

end Yeah.Ssh
