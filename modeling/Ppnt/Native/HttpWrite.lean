import Ppnt.Native.Err
import Ppnt.Native.HttpRequest

/-!
# What the HTTP sessions write

Model of the writing half of `Http1Session::request` (`ppnt-http/src/http1.ixx`), of
`Http2Session::flush_writes` (`ppnt-http/src/http2.ixx`) and of `TcpStream::write_all`
(`ppnt-io/src/net/tcp_stream.ixx`), each running alone.  A `connection_.write` passes on the result
of the stream behind it (`BoxedStream`, `AnyStreamImpl`), and that of a `TcpStream` is how many
bytes the kernel has taken.

The functions get the results of the successive writes and give what they return, `none` while they
wait for another write, and the bytes that the transport has accepted.
-/

namespace Ppnt.Native

/-- The result of one `write`. -/
abbrev Write := Except Error Nat

/-- `Http1Session::request` up to its read loop. -/
def sendRequest (r : OutgoingRequest) (write : Write) : Except Error Unit × List UInt8 :=
  match write with
  | .error e => (.error e, [])
  | .ok n => (.ok (), r.serializeToH1.take n)

/-- `flush_writes`, given what the successive `nghttp2_session_mem_send` calls return until there is
    nothing more to send. -/
def flushWrites : List (List UInt8) → List Write → Option (Except Error Unit) × List UInt8
  | [], _ => (some (.ok ()), [])
  | _ :: _, [] => (none, [])
  | _ :: _, .error e :: _ => (some (.error e), [])
  | data :: sends, .ok n :: writes =>
    ((flushWrites sends writes).1, data.take n ++ (flushWrites sends writes).2)

/-- `write_all`. -/
def writeAll (buf : List UInt8) : List Write → Option (Except Error Unit) × List UInt8
  | [] => (if buf = [] then some (.ok ()) else none, [])
  | write :: writes =>
    if buf = [] then (some (.ok ()), [])
    else
      match write with
      | .error e => (some (.error e), [])
      | .ok n =>
        if n = 0 then (some (makeErrResult .brokenPipe "write_all broken pipe"), [])
        else ((writeAll (buf.drop n) writes).1, buf.take n ++ (writeAll (buf.drop n) writes).2)

end Ppnt.Native
