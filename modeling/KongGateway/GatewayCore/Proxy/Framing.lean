import KongGateway.GatewayCore.Proxy.Headers

/-!
# Proxy — replaced bodies and their length

What `proxy_handler` hands to the HTTP client for one attempt, and to
the client behind the gateway for the answer it returns: the transformed
headers, and the body or what `body_replace` puts in its place. A
`content-length` is an ordinary header to both transforms. It is copied
from the message that came in, whichever body is sent behind it.
-/

namespace KongGateway.GatewayCore

open RustStd MultiMap

/-! ## The two messages -/

/-- The headers and the body of a request or a response that is sent. -/
structure SentMessage where
  headers : List (String × String)
  body : ByteArray

section Messages

variable (fromStr : String → Option String)

/-- The request of one attempt, from the headers and the body of the
request that came in. -/
def upstreamRequest (headers : HeaderMap) (bodyBytes : ByteArray) (transform : RequestTransform) :
    SentMessage where
  headers := transformRequestHeaders fromStr headers transform
  body := (transform.bodyReplace.map String.toUTF8).getD bodyBytes

/-- The response that no plugin blocks, from the headers of the
upstream's response and the bytes of its stream. -/
def clientResponse (upstreamHeaders : HeaderMap) (responseStream : ByteArray)
    (transform : ResponseTransform) : SentMessage where
  headers := (transformResponseHeaders fromStr upstreamHeaders transform).filter
    fun entry => !isHopByHopHeader entry.1
  body := (transform.bodyReplace.map String.toUTF8).getD responseStream

end Messages

/-! ## Lengths -/

def contentLength : String := "content-length"

/-- The number a `content-length` stands for: one digit or more and
nothing else. -/
def lengthOf (value : String) : Option Nat :=
  if value ≠ "" ∧ value.toList.all Char.isDigit then
    some (value.toList.foldl (fun n c => n * 10 + (c.toNat - 48)) 0)
  else none

/-- The length sent with the message, if any, is that of its body. -/
def SentMessage.Framed (message : SentMessage) : Prop :=
  ∀ value ∈ getAll message.headers contentLength, lengthOf value = some message.body.size

instance (message : SentMessage) : Decidable message.Framed :=
  inferInstanceAs (Decidable (∀ value ∈ getAll message.headers contentLength,
    lengthOf value = some message.body.size))

/-- None of the entries gives the message a length. -/
def SetsNoLength (fromStr : String → Option String) (entries : List (String × String)) : Prop :=
  ∀ entry ∈ entries, ∀ value, headerOf fromStr entry ≠ some (contentLength, value)

def RemovesLength (removeHeaders : List String) : Prop :=
  ∃ text ∈ removeHeaders, headerNameFromBytes text = some contentLength

instance (removeHeaders : List String) : Decidable (RemovesLength removeHeaders) :=
  inferInstanceAs (Decidable (∃ text ∈ removeHeaders, headerNameFromBytes text = some contentLength))

/-- The length is removed, or the one that came in, the last if there
are several, is the length of the replacement. -/
def LengthFits (headers : HeaderMap) (removeHeaders : List String)
    (bodyReplace : Option String) : Prop :=
  ∀ replacement, bodyReplace = some replacement →
    RemovesLength removeHeaders
    ∨ ∀ value, (getAll headers contentLength).getLast? = some value →
      lengthOf value = some replacement.utf8ByteSize

/-! ## The length that is sent -/

variable {fromStr : String → Option String}

theorem getAll_of_setsNoLength {entries : List (String × String)}
    (h : SetsNoLength fromStr entries) :
    getAll (entries.filterMap (headerOf fromStr)) contentLength = [] := by
  refine List.eq_nil_iff_forall_not_mem.mpr fun value hvalue => ?_
  obtain ⟨entry, hentry, hheader⟩ := List.mem_filterMap.mp (mem_getAll.mp hvalue)
  exact h entry hentry value hheader

/-- A transform that sets no length leaves the last one, unless it
removes it. -/
theorem getAll_transform_length {addHeaders setHeaders : List (String × String)}
    (hadd : SetsNoLength fromStr addHeaders) (hset : SetsNoLength fromStr setHeaders)
    (headers : HeaderMap) (removeHeaders : List String) :
    getAll (applyHeaderTransform fromStr (insertAll headers []) addHeaders setHeaders
        removeHeaders) contentLength
      = if RemovesLength removeHeaders then []
        else (getAll headers contentLength).getLast?.toList := by
  rw [getAll_applyHeaderTransform, getAll_of_setsNoLength hadd, getAll_of_setsNoLength hset,
    getAll_removeHeaders, getAll_insertAll_nil]
  by_cases hremoved : RemovesLength removeHeaders
  · rw [if_pos hremoved, if_pos (show ∃ text ∈ removeHeaders, _ from hremoved)]
    rfl
  · rw [if_neg hremoved, if_neg (show ¬ ∃ text ∈ removeHeaders, _ from hremoved)]
    cases (getAll headers contentLength).getLast? <;> simp

theorem getAll_upstreamRequest_length {transform : RequestTransform}
    (hadd : SetsNoLength fromStr transform.addHeaders)
    (hset : SetsNoLength fromStr transform.setHeaders) (headers : HeaderMap) (body : ByteArray) :
    getAll (upstreamRequest fromStr headers body transform).headers contentLength
      = if RemovesLength transform.removeHeaders then []
        else (getAll headers contentLength).getLast?.toList := by
  have hforwarded : getAll (forwardableHeaders headers) contentLength
      = getAll headers contentLength := by
    rw [forwardableHeaders, getAll_filter_key, if_pos (by decide)]
  rw [upstreamRequest, transformRequestHeaders, getAll_firsts, getAll_transform_length hadd hset,
    hforwarded]
  split_ifs with hremoved
  · rfl
  · cases (getAll headers contentLength).getLast? <;> rfl

theorem getAll_clientResponse_length {transform : ResponseTransform}
    (hadd : SetsNoLength fromStr transform.addHeaders)
    (hset : SetsNoLength fromStr transform.setHeaders) (upstreamHeaders : HeaderMap)
    (responseStream : ByteArray) :
    getAll (clientResponse fromStr upstreamHeaders responseStream transform).headers contentLength
      = if RemovesLength transform.removeHeaders then []
        else (getAll upstreamHeaders contentLength).getLast?.toList := by
  rw [clientResponse, getAll_filter_key _ (fun name => !isHopByHopHeader name),
    if_pos (by decide), transformResponseHeaders, getAll_transform_length hadd hset]

/-- A message that is sent with the last length that came in, unless it
is removed, and with the replacement as its body. -/
theorem framed_iff_lengthFits {message : SentMessage} {headers : HeaderMap}
    {removeHeaders : List String} {bodyReplace : Option String}
    (hlength : getAll message.headers contentLength
      = if RemovesLength removeHeaders then []
        else (getAll headers contentLength).getLast?.toList)
    (hbody : ∀ replacement, bodyReplace = some replacement → message.body = replacement.toUTF8) :
    (bodyReplace.isSome → message.Framed) ↔ LengthFits headers removeHeaders bodyReplace := by
  cases bodyReplace with
  | none => simp [LengthFits]
  | some replacement =>
    have hsize : message.body.size = replacement.utf8ByteSize := by
      rw [hbody replacement rfl]
      rfl
    simp only [SentMessage.Framed, LengthFits, hlength, hsize, Option.isSome_some, forall_const,
      Option.some.injEq, forall_eq']
    by_cases hremoved : RemovesLength removeHeaders
    · simp [hremoved]
    · simp [hremoved]

/-! ## Framing -/

/-- **A replaced body is framed if and only if the length that came in
fits it**, in the request sent upstream and in the response returned:
the transform removes the length, there is none, or it happens to be
that of the replacement. -/
theorem replaced_body_framed_iff (fromStr : String → Option String)
    {request : RequestTransform} {response : ResponseTransform}
    (hrequest : SetsNoLength fromStr (request.addHeaders ++ request.setHeaders))
    (hresponse : SetsNoLength fromStr (response.addHeaders ++ response.setHeaders))
    (headers upstreamHeaders : HeaderMap) (bodyBytes responseStream : ByteArray) :
    ((request.bodyReplace.isSome → (upstreamRequest fromStr headers bodyBytes request).Framed)
      ∧ (response.bodyReplace.isSome →
        (clientResponse fromStr upstreamHeaders responseStream response).Framed))
    ↔ LengthFits headers request.removeHeaders request.bodyReplace
      ∧ LengthFits upstreamHeaders response.removeHeaders response.bodyReplace := by
  obtain ⟨hadd, hset⟩ := List.forall_mem_append.mp hrequest
  obtain ⟨hadd', hset'⟩ := List.forall_mem_append.mp hresponse
  refine and_congr ?_ ?_
  · refine framed_iff_lengthFits (getAll_upstreamRequest_length hadd hset headers bodyBytes) ?_
    intro replacement hreplace
    rw [upstreamRequest, hreplace]
    rfl
  · refine framed_iff_lengthFits
      (getAll_clientResponse_length hadd' hset' upstreamHeaders responseStream) ?_
    intro replacement hreplace
    rw [clientResponse, hreplace]
    rfl

/-! ### A longer body -/

def maskedRequest : RequestTransform := { bodyReplace := some "redacted" }

def maskedResponse : ResponseTransform := { bodyReplace := some "redacted" }

theorem masked_setsNoLength :
    SetsNoLength headerToStr (maskedRequest.addHeaders ++ maskedRequest.setHeaders)
      ∧ SetsNoLength headerToStr (maskedResponse.addHeaders ++ maskedResponse.setHeaders) := by
  simp [SetsNoLength, maskedRequest, maskedResponse]

/-- A request without a length, as one sent in chunks, and a response
whose length is that of the replacement. -/
theorem fitting_lengths_framed :
    (upstreamRequest headerToStr [("accept", "text/html")] "hello".toUTF8 maskedRequest).Framed
      ∧ (clientResponse headerToStr [("content-length", "8")] "12345678".toUTF8
        maskedResponse).Framed := by
  have hframed := (replaced_body_framed_iff headerToStr masked_setsNoLength.1
    masked_setsNoLength.2 [("accept", "text/html")] [("content-length", "8")] "hello".toUTF8
    "12345678".toUTF8).mpr
  have hfits : LengthFits [("accept", "text/html")] maskedRequest.removeHeaders
        maskedRequest.bodyReplace
      ∧ LengthFits [("content-length", "8")] maskedResponse.removeHeaders
        maskedResponse.bodyReplace := by
    constructor
    · rintro replacement ⟨⟩
      exact .inr fun value hvalue => absurd hvalue (by simp [getAll, contentLength])
    · rintro replacement ⟨⟩
      refine .inr fun value hvalue => ?_
      obtain rfl : "8" = value := Option.some.inj hvalue
      decide
  exact ⟨(hframed hfits).1 rfl, (hframed hfits).2 rfl⟩

/-- Five bytes are announced and eight are sent, in both directions. -/
theorem replacement_longer_than_announced :
    SetsNoLength headerToStr (maskedRequest.addHeaders ++ maskedRequest.setHeaders)
      ∧ SetsNoLength headerToStr (maskedResponse.addHeaders ++ maskedResponse.setHeaders)
      ∧ ¬ (upstreamRequest headerToStr [("content-length", "5")] "hello".toUTF8
        maskedRequest).Framed
      ∧ ¬ (clientResponse headerToStr [("content-length", "5")] "hello".toUTF8
        maskedResponse).Framed :=
  ⟨masked_setsNoLength.1, masked_setsNoLength.2, by decide, by decide⟩

end KongGateway.GatewayCore
