import KinOS.Fs.Read
import KinOS.Fs.Write

/-!
# A file descriptor between an application and the file server

| here | there |
| --- | --- |
| `FatFileDescriptor`                | `class FatFileDescriptor` (`servers/am/filedescriptor.hpp:19-36`) |
| `FatFileDescriptor.forward`, `.read` | `FatFileDescriptor::Read` (`servers/am/filedescriptor.cpp:49-78`) |
| `FatFileDescriptor.stamp`, `.write`  | `FatFileDescriptor::Write` (`filedescriptor.cpp:80-116`) |
| `collect`, `read`                  | `read` (`libs/kinos/common/newlib_support.c:123-161`) |
| `chunks`, `write`                  | `write` (`newlib_support.c:163-221`) |

The application, the application manager and the file server take turns: each waits for the other's answer before it
goes on. So a call is one function of the messages that pass, in their order; `none` is a call that waits for a
message nobody sends, or a request the file server does not come to answer.
-/

namespace KinOS.Fs

/-- `rmsg.arg.read`, when the message is one. -/
def readArg? (m : Message) : Option ReadArg :=
  match m.arg with
  | .read r => some r
  | _ => none

/-- The data bytes of a message. -/
def payload (r : ReadArg) : List UInt8 := r.data.toList.take r.len.toNat

structure FatFileDescriptor where
  filename : List UInt8
  rdOff : Nat
  rdCluster : Nat
  wrOff : Nat
deriving DecidableEq

namespace FatFileDescriptor

/-- The `while (1)` of `Read` on the messages from the file server: pass them on to the application up to the one
of length 0. -/
def forward : FatFileDescriptor → List Message → Option (FatFileDescriptor × List Message × List Message)
  | _, [] => none
  | fd, m :: ms =>
    (readArg? m).bind fun r =>
      if r.len ≠ 0 then
        (forward { fd with rdOff := fd.rdOff + r.len.toNat, rdCluster := r.cluster.toNat } ms).map
          fun (fd, sent, left) => (fd, m :: sent, left)
      else some (fd, [m], ms)

/-- The request as it goes to the file server. -/
def readRequest (fd : FatFileDescriptor) (msg : ReadArg) : ReadArg :=
  { msg with
    offset := UInt32.ofNat fd.rdOff
    cluster := UInt32.ofNat fd.rdCluster
    filename := fd.filename }

/-- `Read`, with `queue` what the file server sent and nobody received yet. Returns what the file server sent for this
request, what was passed on to the application, and the new queue. -/
def read (fuel : Nat) (fd : FatFileDescriptor) (s : Server) (queue : List Message) (msg : ReadArg) :
    Option (FatFileDescriptor × Server × List Message × List Message × List Message) :=
  (s.readState fuel (fd.readRequest msg)).bind fun (s, out) =>
    (fd.forward (queue ++ out)).map fun (fd, sent, queue) => (fd, s, queue, out, sent)

/-- Requests one after the other: what the file server sent for each. -/
def reads (fuel : Nat) : FatFileDescriptor → Server → List Message → List ReadArg →
    Option (FatFileDescriptor × Server × List (List Message))
  | fd, s, _, [] => some (fd, s, [])
  | fd, s, queue, msg :: msgs =>
    (fd.read fuel s queue msg).bind fun (fd, s, queue, out, _) =>
      (reads fuel fd s queue msgs).map fun (fd, s, outs) => (fd, s, out :: outs)

/-- A message of the application as it goes to the file server. -/
def stamp (fd : FatFileDescriptor) (msg : WriteArg) : WriteArg :=
  { msg with filename := fd.filename, offset := UInt32.ofNat fd.wrOff }

/-- `Write` on the messages of one call: each is stamped and handed to the file server, up to one of length 0 that is
not the first. -/
def write (fuel : Nat) (fd : FatFileDescriptor) (s : Server) (msg : WriteArg) :
    List WriteArg → Option (FatFileDescriptor × Server × List WriteArg)
  | [] => none
  | next :: rest =>
    (s.writeState fuel (fd.stamp msg)).bind fun s =>
      let fd := { fd with wrOff := fd.wrOff + msg.len.toNat }
      if next.len = 0 then
        (s.writeState fuel (fd.stamp next)).map fun s => (fd, s, rest)
      else write fuel fd s next rest

end FatFileDescriptor

/-! ## The C library -/

/-- The loop of `read`: what the messages leave in the caller's buffer. -/
def collect : List Message → Option (List UInt8)
  | [] => none
  | m :: ms => (readArg? m).bind fun r => if r.len ≠ 0 then (collect ms).map (payload r ++ ·) else some []

/-- `read(fd, buf, count)`: `arg.read.count` has 32 bits. The other fields of the request are what the stack held. -/
def read (fuel : Nat) (fd : FatFileDescriptor) (s : Server) (stack : ReadArg) (count : UInt64) :
    Option (FatFileDescriptor × Server × List UInt8) :=
  (fd.read fuel s [] { stack with count := count.toUInt32 }).bind fun (fd, s, _, _, sent) =>
    (collect sent).map fun bytes => (fd, s, bytes)

/-- The messages of `write`: pieces of at most 16 bytes, then the one of length 0. A piece shorter than 16 leaves the
rest of `data` as it was. -/
def chunks : Nat → WriteArg → List UInt8 → List WriteArg
  | 0, w, _ => [{ w with len := 0 }]
  | n + 1, w, buf =>
    if buf = [] then [{ w with len := 0 }]
    else
      let chunk := buf.take 16
      let w := { w with len := UInt8.ofNat chunk.length, data := setData w.data chunk }
      w :: chunks n w (buf.drop 16)

/-- `write(fd, buf, count)` with the `count` bytes at `buf`. -/
def write (fuel : Nat) (fd : FatFileDescriptor) (s : Server) (stack : WriteArg) (buf : List UInt8) :
    Option (FatFileDescriptor × Server) :=
  match chunks buf.length { stack with count := UInt32.ofNat buf.length } buf with
  | [] => none
  | msg :: rest => (fd.write fuel s msg rest).map fun (fd, s, _) => (fd, s)

end KinOS.Fs
