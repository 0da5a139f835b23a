import Bigmachine.Rpc.Client

/-!
# Streams at the client

A method hands a reader to the server; the server copies it into the body of the response
and puts the text of the error that ended the reader, if any, into a trailer; the reader
that `Call` hands back turns a text in the trailer into an error at the end of the body.

The trailer of a stream that ended well is the empty text. So an error whose text is empty
is lost, and the truncated stream looks complete; every other stream arrives as it was
(`stream_fidelity_iff`), in whatever pieces the transport delivers the body.
-/

namespace Bigmachine.Rpc

open Errors Io

variable {T V : Type}

/-- The reader `out` yields the bytes of `src` and then `io.EOF` exactly when `src` did; an
error at the end of `src` comes out as an error with the same text. -/
structure Faithful (P : Package) (src out : Stream) : Prop where
  items : out.items = src.items
  eof : out.err = .eof ↔ src.err = .eof
  text : src.err ≠ .eof → P.errorText out.err = P.errorText src.err

/-- The response for a method that assigned the reader `src` and returned nil. -/
def streamResponse (P : Package) (src : Stream) : Response :=
  ⟨200, "application/octet-stream", src.items, ((src.copy .eof).2.map P.errorText).getD ""⟩

theorem streamResponse_trailer (P : Package) (src : Stream) :
    (streamResponse P src).trailer = if src.err = .eof then "" else P.errorText src.err := by
  simp only [streamResponse, Reader.copy_err]
  split <;> rfl

theorem streamReader_err (resp : Response) {body : Stream} (h : body.err = .eof) :
    (Client.streamReader resp body).err =
      if resp.trailer = "" then .eof else .text resp.trailer := by
  by_cases ht : resp.trailer = "" <;> simp [Client.streamReader, h, ht]

theorem streamReader_items (resp : Response) (body : Stream) :
    (Client.streamReader resp body).items = body.items :=
  Reader.mapErr_items _ _

/-- However the body is delivered, the stream arrives faithfully exactly when its end is
told apart from the regular one by its text. -/
theorem faithful_iff (P : Package) (src : Stream) {body : Stream}
    (hbody : body.Delivers .eof (streamResponse P src).body) :
    Faithful P src (Client.streamReader (streamResponse P src) body) ↔
      src.err = .eof ∨ P.errorText src.err ≠ "" := by
  have hitems : (Client.streamReader (streamResponse P src) body).items = src.items :=
    (streamReader_items _ _).trans hbody.1
  have herr := streamReader_err (streamResponse P src) hbody.2
  rw [streamResponse_trailer] at herr
  by_cases hend : src.err = .eof
  · rw [if_pos hend, if_pos rfl] at herr
    have hfaithful : Faithful P src (Client.streamReader (streamResponse P src) body) :=
      ⟨hitems, by simp [herr, hend], absurd hend⟩
    exact ⟨fun _ => Or.inl hend, fun _ => hfaithful⟩
  · rw [if_neg hend] at herr
    by_cases htext : P.errorText src.err = ""
    · rw [if_pos htext] at herr
      constructor
      · intro h
        exact absurd (h.eof.mp herr) hend
      · rintro (h | h)
        · exact absurd h hend
        · exact absurd htext h
    · rw [if_neg htext] at herr
      have hfaithful : Faithful P src (Client.streamReader (streamResponse P src) body) :=
        ⟨hitems, by simp [herr, hend], fun _ => by rw [herr]; rfl⟩
      exact ⟨fun _ => Or.inr htext, fun _ => hfaithful⟩

theorem receive_stream (P : Package) (wire : Wire T V) {m : Method T V} {f : Finished V}
    {src : Stream} (hok : f.outcome.error P = none) (hsrc : f.stream m = some src)
    (url serviceMethod : String) (n : Int) :
    (Client.receive P wire url serviceMethod .stream (reply P wire m n f).response).2 =
      .ok (.stream (streamResponse P src)) := by
  rw [reply_of_stream P wire n hsrc, hok]
  rfl

/-- **Streams arrive as they were**, exactly when they end with `io.EOF` or with an error
whose text is not empty: for every server, every method that assigns a reader and returns
nil, and every way to deliver the body of the response. -/
theorem stream_fidelity_iff (P : Package) (wire : Wire T V) (s : Server (Service T V))
    (rpcPrefix addr serviceMethod : String) (arg : Client.CallArg V) {body : Bytes}
    (harg : arg.Sends wire body) {m : Method T V} {a : Arg V}
    (hm : Reaches wire s ⟨"POST", Client.url rpcPrefix addr serviceMethod, body⟩ m a)
    (hok : (m.call a).outcome.error P = none) {src : Stream}
    (hsrc : (m.call a).stream m = some src) :
    ∃ resp, callServer P wire s rpcPrefix addr serviceMethod arg .stream = .ok (.stream resp) ∧
      ∀ b : Stream, b.Delivers .eof resp.body →
        (Faithful P src (Client.streamReader resp b) ↔
          src.err = .eof ∨ P.errorText src.err ≠ "") := by
  refine ⟨streamResponse P src, ?_, fun b hb => faithful_iff P src hb⟩
  rw [callServer_of_reaches P .stream harg hm]
  exact receive_stream P wire hok hsrc _ _ _

/-- A server with one method, which streams `src`. -/
def streamServer (src : Stream) : Server (Service Unit Bytes) where
  services name :=
    if name = "Stream" then
      some fun method =>
        if method = "Gimme" then
          some {
            arg := .gob ()
            reply := .stream
            call := fun _ => { outcome := .returned none, readcloser := some src, value := [] } }
        else none
    else none

theorem stream_fidelity_iff_streamServer :
    ∃ resp, callServer Reference.package Reference.wire
        (streamServer { chunks := [[104], [105]], err := .text "a series of unfortunate events" })
        "/" "https://localhost:4000" "Stream.Gimme" (.value []) .stream = .ok (.stream resp) ∧
      Faithful Reference.package
        { chunks := [[104], [105]], err := .text "a series of unfortunate events" }
        (Client.streamReader resp { last := resp.body, err := .eof }) := by
  obtain ⟨resp, hcall, h⟩ := stream_fidelity_iff Reference.package Reference.wire
    (streamServer { chunks := [[104], [105]], err := .text "a series of unfortunate events" })
    "/" "https://localhost:4000" "Stream.Gimme" (.value []) rfl
    ⟨rfl, ⟨"Stream", "Gimme", _, by decide, rfl, rfl⟩, rfl⟩ rfl rfl
  exact ⟨resp, hcall, (h _ ⟨rfl, rfl⟩).mpr (Or.inr (by decide))⟩

/-- A stream that ends with an error without a text arrives as a complete stream. -/
theorem empty_error_text_lost :
    ¬ ∀ (T V : Type) (P : Package) (wire : Wire T V) (s : Server (Service T V))
      (rpcPrefix addr serviceMethod : String) (arg : Client.CallArg V) (body : Bytes)
      (m : Method T V) (a : Arg V) (src : Stream), arg.Sends wire body →
      Reaches wire s ⟨"POST", Client.url rpcPrefix addr serviceMethod, body⟩ m a →
      (m.call a).outcome.error P = none → (m.call a).stream m = some src →
      ∃ resp, callServer P wire s rpcPrefix addr serviceMethod arg .stream = .ok (.stream resp) ∧
        ∀ b : Stream, b.Delivers .eof resp.body →
          Faithful P src (Client.streamReader resp b) := by
  intro h
  obtain ⟨resp, hcall, hall⟩ := h Unit Bytes Reference.package Reference.wire
    (streamServer { chunks := [[104], [105]], err := .text "" }) "/" "https://localhost:4000"
    "Stream.Gimme" (.value []) [] _ (.value []) { chunks := [[104], [105]], err := .text "" } rfl
    ⟨rfl, ⟨"Stream", "Gimme", _, by decide, rfl, rfl⟩, rfl⟩ rfl rfl
  cases hcall
  have hf := hall { last := [104, 105], err := .eof } ⟨rfl, rfl⟩
  exact absurd (hf.eof.mp rfl) (by decide)

end Bigmachine.Rpc
