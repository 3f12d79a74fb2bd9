import Cacophony.Rtpsize

/-!
Packets in rtpsize form are read back.

A well-formed packet is laid out here apart from the parser, as the format describes it. What is
sealed so is parsed to the header it was given and decrypted to its payload. Padding and extensions
that do not fit into the body are rejected.
-/

namespace Cacophony.RtpsizeRoundTrip

open Transport Rtpsize

/-! ### Layout -/

/-- What an RTP packet says in the clear. A header extension is given by its profile and the
number of its words. -/
structure ClearHeader where
  fields : RtpHeaderFields
  marker : Bool
  padding : Bool
  csrcs : List UInt32
  extension : Option (UInt16 × UInt16)
  payloadType_lt : fields.payloadType < 128
  csrcs_le : csrcs.length ≤ 15

namespace ClearHeader

variable (h : ClearHeader)

/-- The length of the body of the extension. -/
def extensionLen : ℕ := (h.extension.map fun (_, words) => words.toNat * 4).getD 0

def firstByte : UInt8 :=
  (rtpVersion <<< 6) ||| (if h.padding then 0x20 else 0) |||
    (if h.extension.isSome then 0x10 else 0) ||| UInt8.ofNat h.csrcs.length

def fixedBytes : Bytes :=
  [h.firstByte, h.fields.payloadType ||| if h.marker then 0x80 else 0] ++
    u16Be h.fields.seq.toNat ++ u32Be h.fields.timestamp.toNat ++ u32Be h.fields.ssrc.toNat

def csrcBytes : Bytes := h.csrcs.flatMap fun csrc => u32Be csrc.toNat

def extensionBytes : Bytes :=
  match h.extension with
  | none => []
  | some (profile, words) => u16Be profile.toNat ++ u16Be words.toNat

def bytes : Bytes := h.fixedBytes ++ h.csrcBytes ++ h.extensionBytes

/-- The header that a reader should find. -/
def header : RtpHeader :=
  let csrcEnd := 12 + 4 * h.csrcs.length
  let extensionStart := if h.extension.isSome then csrcEnd + 4 else csrcEnd
  { version := 2
    padding := h.padding
    extension := h.extension.isSome
    marker := h.marker
    payloadType := h.fields.payloadType
    seq := h.fields.seq
    timestamp := h.fields.timestamp
    ssrc := h.fields.ssrc
    headerLen := extensionStart + h.extensionLen
    encryptedBodyOffset := extensionStart }

/-- The packet in rtpsize form: what is in the clear is authenticated, the body is encrypted. -/
def sealed (T : TransportCipher) (nonceSuffix : UInt32) (body : Bytes) : Option Bytes :=
  (T.encryptInPlaceDetached (rtpsizeNonce T.mode.nonceLen nonceSuffix) h.bytes body).map
    fun (body, tag) => h.bytes ++ body ++ tag ++ u32Be nonceSuffix.toNat

end ClearHeader

/-- A well-formed packet. The padding is given by the bytes in front of its count. -/
structure RtpPacket where
  fields : RtpHeaderFields
  marker : Bool
  csrcs : List UInt32
  extension : Option (UInt16 × Bytes)
  payload : Bytes
  padding : Option Bytes
  payloadType_lt : fields.payloadType < 128
  csrcs_le : csrcs.length ≤ 15
  extension_words : ∀ profile body, extension = some (profile, body) →
    ∃ words < 2 ^ 16, body.length = words * 4
  padding_lt : ∀ filler, padding = some filler → filler.length < 255

namespace RtpPacket

variable (p : RtpPacket)

def clear : ClearHeader where
  fields := p.fields
  marker := p.marker
  padding := p.padding.isSome
  csrcs := p.csrcs
  extension := p.extension.map fun (profile, body) => (profile, UInt16.ofNat (body.length / 4))
  payloadType_lt := p.payloadType_lt
  csrcs_le := p.csrcs_le

def extensionBody : Bytes := (p.extension.map Prod.snd).getD []

def paddingBytes : Bytes :=
  match p.padding with
  | none => []
  | some filler => filler ++ [UInt8.ofNat (filler.length + 1)]

def body : Bytes := p.extensionBody ++ p.payload ++ p.paddingBytes

end RtpPacket

/-! ### Numbers -/

lemma ofBe_u16Be (n : ℕ) : ofBe (u16Be n) = n % 2 ^ 16 := by
  simp only [ofBe, u16Be, List.map_cons, List.map_nil, List.foldl_cons, List.foldl_nil,
    UInt8.toNat_ofNat']
  omega

lemma ofBe_u32Be (n : ℕ) : ofBe (u32Be n) = n % 2 ^ 32 := by
  simp only [ofBe, u32Be, List.map_cons, List.map_nil, List.foldl_cons, List.foldl_nil,
    UInt8.toNat_ofNat']
  omega

lemma ofBe_seq (n : UInt16) : UInt16.ofNat (ofBe (u16Be n.toNat)) = n := by
  rw [ofBe_u16Be, Nat.mod_eq_of_lt n.toNat_lt, UInt16.ofNat_toNat]

lemma ofBe_word (n : UInt32) : UInt32.ofNat (ofBe (u32Be n.toNat)) = n := by
  rw [ofBe_u32Be, Nat.mod_eq_of_lt n.toNat_lt, UInt32.ofNat_toNat]

/-! ### Headers -/

namespace ClearHeader

variable (h : ClearHeader)

/-- The flags and the count share the first byte. -/
lemma firstByte_fields : h.firstByte >>> 6 = rtpVersion ∧
    (h.firstByte &&& 0x20 ≠ 0 ↔ h.padding = true) ∧
    (h.firstByte &&& 0x10 ≠ 0 ↔ h.extension.isSome = true) ∧
    (h.firstByte &&& 0x0f).toNat = h.csrcs.length := by
  have hbits : ∀ padding extension : Bool, ∀ n < 16,
      let b := (rtpVersion <<< 6) ||| (if padding then 0x20 else 0) |||
        (if extension then 0x10 else 0) ||| UInt8.ofNat n
      b >>> 6 = rtpVersion ∧ (b &&& 0x20 ≠ 0 ↔ padding = true) ∧
        (b &&& 0x10 ≠ 0 ↔ extension = true) ∧ (b &&& 0x0f).toNat = n := by
    decide +kernel
  exact hbits h.padding h.extension.isSome h.csrcs.length (Nat.lt_succ_of_le h.csrcs_le)

lemma secondByte_fields : (h.fields.payloadType ||| if h.marker then 0x80 else 0) &&& 0x7f =
      h.fields.payloadType ∧
    ((h.fields.payloadType ||| if h.marker then 0x80 else 0) &&& 0x80 ≠ 0 ↔ h.marker = true) := by
  have hbits : ∀ marker : Bool, ∀ n < 128,
      let b := UInt8.ofNat n ||| if marker then 0x80 else 0
      b &&& 0x7f = UInt8.ofNat n ∧ (b &&& 0x80 ≠ 0 ↔ marker = true) := by
    decide +kernel
  have := hbits h.marker h.fields.payloadType.toNat (UInt8.lt_iff_toNat_lt.mp h.payloadType_lt)
  rwa [UInt8.ofNat_toNat] at this

/-- The fixed part of the header. -/
def fixed : RtpFixedHeader where
  version := rtpVersion
  padding := h.padding
  extension := h.extension.isSome
  marker := h.marker
  payloadType := h.fields.payloadType
  csrcCount := h.firstByte &&& 0x0f
  seq := h.fields.seq
  timestamp := h.fields.timestamp
  ssrc := h.fields.ssrc

lemma parse_fixedBytes (rest : Bytes) :
    RtpFixedHeader.parse (h.fixedBytes ++ rest) = some h.fixed := by
  obtain ⟨hversion, hpadding, hextension, -⟩ := h.firstByte_fields
  obtain ⟨htype, hmarker⟩ := h.secondByte_fields
  have hseq := ofBe_seq h.fields.seq
  have htimestamp := ofBe_word h.fields.timestamp
  have hssrc := ofBe_word h.fields.ssrc
  simp only [u16Be, u32Be, List.map_cons, List.map_nil] at hseq htimestamp hssrc
  simp only [fixedBytes, u16Be, u32Be, List.map_cons, List.map_nil, List.cons_append,
    List.nil_append, RtpFixedHeader.parse, fixed, hversion, hpadding, hextension, htype, hmarker,
    hseq, htimestamp, hssrc, Bool.decide_eq_true]

lemma length_fixedBytes : h.fixedBytes.length = 12 := rfl

lemma length_csrcBytes : h.csrcBytes.length = 4 * h.csrcs.length := by
  have hword : ∀ csrc : UInt32, (u32Be csrc.toNat).length = 4 := fun _ => rfl
  simp [csrcBytes, List.length_flatMap, hword, Nat.mul_comm]

lemma length_bytes : h.bytes.length = h.header.encryptedBodyOffset := by
  have hextension : h.extensionBytes.length = if h.extension.isSome then 4 else 0 := by
    unfold extensionBytes
    rcases h.extension with _ | ⟨profile, words⟩ <;> rfl
  simp only [bytes, List.length_append, length_fixedBytes, length_csrcBytes, hextension, header]
  split <;> omega

lemma headerLen_eq : h.header.headerLen = h.bytes.length + h.extensionLen := by
  rw [length_bytes]
  rfl

/-- The extension is found behind the contributing sources, and has to fit into what follows. -/
lemma parseExtension_bytes {profile words : UInt16} (hext : h.extension = some (profile, words))
    (rest : Bytes) : parseExtension (h.bytes ++ rest) h.fixed (12 + 4 * h.csrcs.length) =
      if rest.length < h.extensionLen then
        .error (.truncatedExtensionPayload (h.bytes ++ rest).length h.header.headerLen)
      else .ok h.header := by
  have hdrop : (h.bytes ++ rest).drop (12 + 4 * h.csrcs.length) =
      u16Be profile.toNat ++ (u16Be words.toNat ++ rest) := by
    have hlen : (h.fixedBytes ++ h.csrcBytes).length = 12 + 4 * h.csrcs.length := by
      rw [List.length_append, length_fixedBytes, length_csrcBytes]
    rw [bytes, List.append_assoc, ← hlen, List.drop_left]
    simp [extensionBytes, hext]
  have hwords := ofBe_u16Be words.toNat
  rw [Nat.mod_eq_of_lt words.toNat_lt] at hwords
  have hheader : h.fixed.header (12 + 4 * h.csrcs.length + (4 + words.toNat * 4))
      (12 + 4 * h.csrcs.length + 4) = h.header := by
    simp [RtpFixedHeader.header, fixed, header, extensionLen, hext, rtpVersion, Nat.add_assoc]
  have hlen : 12 + 4 * h.csrcs.length + (4 + words.toNat * 4) = h.header.headerLen := by
    rw [← hheader]
    rfl
  have hfits : (h.bytes ++ rest).length < h.header.headerLen ↔ rest.length < h.extensionLen := by
    rw [headerLen_eq, List.length_append]
    omega
  rw [parseExtension, hdrop]
  simp only [u16Be, List.map_cons, List.map_nil, List.cons_append, List.nil_append] at hwords ⊢
  rw [hlen] at hheader
  simp only [hwords, hlen, hheader, hfits]

/-- The parser reads back what is in the clear. -/
lemma parseHeader_bytes (rest : Bytes) : parseHeader (h.bytes ++ rest) =
    if rest.length < h.extensionLen then
      .error (.truncatedExtensionPayload (h.bytes ++ rest).length h.header.headerLen)
    else .ok h.header := by
  have hfixed : RtpFixedHeader.parse (h.bytes ++ rest) = some h.fixed := by
    rw [bytes, List.append_assoc, List.append_assoc, parse_fixedBytes]
  have hcount : 12 + h.fixed.csrcCount.toNat * 4 = 12 + 4 * h.csrcs.length := by
    rw [fixed, h.firstByte_fields.2.2.2, Nat.mul_comm]
  have hcsrcs : ¬ (h.bytes ++ rest).length < 12 + 4 * h.csrcs.length := by
    simp only [bytes, List.length_append, length_fixedBytes, length_csrcBytes]
    omega
  rw [parseHeader, hfixed]
  simp only [hcount]
  have hversion : ¬ h.fixed.version ≠ rtpVersion := not_not.mpr rfl
  rw [if_neg hversion, if_neg hcsrcs]
  rcases hext : h.extension with _ | ⟨profile, words⟩
  · have hlen : h.extensionLen = 0 := by simp [extensionLen, hext]
    rw [hlen, if_neg (by simp [fixed, hext]), if_neg (Nat.not_lt_zero _)]
    simp [RtpFixedHeader.header, fixed, header, hext, hlen, rtpVersion]
  · rw [if_pos (by simp [fixed, hext]), h.parseExtension_bytes hext]

/-! ### Payloads -/

/-- A list of four parts is cut where they meet. -/
lemma cut_append (a b c d : Bytes) :
    (a ++ b ++ c ++ d).take a.length = a ∧
    slice (a ++ b ++ c ++ d) a.length (a.length + b.length) = b ∧
    slice (a ++ b ++ c ++ d) (a.length + b.length) (a.length + b.length + c.length) = c ∧
    (a ++ b ++ c ++ d).drop (a.length + b.length + c.length) = d := by
  have hdrop : (a ++ b ++ c ++ d).drop a.length = b ++ (c ++ d) := by simp
  have hab := slice_of_drop_eq hdrop
  have hc := slice_of_drop_eq hab.2
  exact ⟨by simp, hab.1, hc.1, hc.2⟩

/-- A sealed packet is opened to its body, which is then stripped. -/
lemma decryptPayloadInto_sealed {T : TransportCipher} {nonceSuffix : UInt32} {body packet : Bytes}
    (hsealed : h.sealed T nonceSuffix body = some packet) :
    T.decryptPayloadInto packet h.header =
      (stripDecryptedRtpPayload body h.extensionLen h.header).mapError .rtp := by
  obtain ⟨⟨encrypted, tag⟩, hencrypt, rfl⟩ := Option.map_eq_some_iff.mp hsealed
  obtain ⟨-, htag⟩ := T.length_encrypt hencrypt
  obtain ⟨haad, hbody, hcut, hnonce⟩ := cut_append h.bytes encrypted tag (u32Be nonceSuffix.toNat)
  have hsuffix : (u32Be nonceSuffix.toNat).length = rtpsizeNonceLen := rfl
  have hlen : (h.bytes ++ encrypted ++ tag ++ u32Be nonceSuffix.toNat).length =
      h.bytes.length + encrypted.length + tag.length + rtpsizeNonceLen := by
    rw [List.length_append, List.length_append, List.length_append, hsuffix]
  have hoffset : h.header.headerLen - h.bytes.length = h.extensionLen := by
    rw [headerLen_eq, Nat.add_sub_cancel_left]
  have hlong : ¬ h.bytes.length + encrypted.length + tag.length + rtpsizeNonceLen <
      h.bytes.length + aeadTagLen + rtpsizeNonceLen := by
    omega
  have htagOffset : h.bytes.length + encrypted.length + tag.length - aeadTagLen =
      h.bytes.length + encrypted.length := by
    omega
  rw [TransportCipher.decryptPayloadInto, ← length_bytes]
  simp only [hlen, if_neg hlong, Nat.add_sub_cancel, htagOffset, haad, hbody, hcut, hnonce,
    hoffset, ofBe_word, T.decrypt_encrypt hencrypt]

lemma exists_sealed (T : TransportCipher) (nonceSuffix : UInt32) (body : Bytes) :
    ∃ packet rest, h.sealed T nonceSuffix body = some packet ∧ packet = h.bytes ++ rest ∧
      rest.length = body.length + aeadTagLen + rtpsizeNonceLen := by
  obtain ⟨⟨encrypted, tag⟩, hencrypt⟩ := Option.isSome_iff_exists.mp
    (T.isSome_encrypt (rtpsizeNonce T.mode.nonceLen nonceSuffix) h.bytes body)
  obtain ⟨hbody, htag⟩ := T.length_encrypt hencrypt
  refine ⟨_, encrypted ++ tag ++ u32Be nonceSuffix.toNat, Option.map_eq_some_iff.mpr
    ⟨_, hencrypt, rfl⟩, by simp, ?_⟩
  rw [List.length_append, List.length_append, hbody, htag]
  rfl

end ClearHeader

namespace RtpPacket

variable (p : RtpPacket)

lemma extensionLen_clear : p.clear.extensionLen = p.extensionBody.length := by
  rcases hext : p.extension with _ | ⟨profile, body⟩
  · simp [ClearHeader.extensionLen, clear, extensionBody, hext]
  · obtain ⟨words, hwords, hlen⟩ := p.extension_words profile body hext
    simp only [ClearHeader.extensionLen, clear, extensionBody, hext, Option.map_some,
      Option.getD_some, UInt16.toNat_ofNat', hlen]
    omega

lemma stripPadding_padded (payload : Bytes) {filler : Bytes} (h : filler.length < 255) :
    stripPadding (payload ++ (filler ++ [UInt8.ofNat (filler.length + 1)])) = .ok payload := by
  have hcount : (UInt8.ofNat (filler.length + 1)).toNat = filler.length + 1 := by
    rw [UInt8.toNat_ofNat']
    omega
  have hlast : (payload ++ (filler ++ [UInt8.ofNat (filler.length + 1)])).getLast? =
      some (UInt8.ofNat (filler.length + 1)) := by
    rw [← List.append_assoc, List.getLast?_concat]
  have hlen : (payload ++ (filler ++ [UInt8.ofNat (filler.length + 1)])).length =
      payload.length + (filler.length + 1) := by
    simp
  rw [stripPadding, hlast]
  simp only [hcount, hlen]
  rw [if_neg (by omega), Nat.add_sub_cancel, List.take_left]

/-- Extension and padding come off. -/
lemma strip_body : stripDecryptedRtpPayload p.body p.clear.extensionLen p.clear.header =
    .ok p.payload := by
  have hdrop : p.body.drop p.extensionBody.length = p.payload ++ p.paddingBytes := by
    rw [body, List.append_assoc, List.drop_left]
  have hfits : ¬ p.body.length < p.extensionBody.length := by
    rw [body, List.append_assoc, List.length_append]
    omega
  rw [stripDecryptedRtpPayload, extensionLen_clear, if_neg hfits]
  simp only [hdrop, ClearHeader.header, clear]
  rcases hpad : p.padding with _ | filler
  · simp [paddingBytes, hpad]
  · simp only [paddingBytes, hpad, Option.isSome_some, if_true]
    exact stripPadding_padded p.payload (p.padding_lt filler hpad)

end RtpPacket

/-! ### Round trip -/

/-- A receiver gets this header and this payload out of the datagram. -/
def Opens (T : TransportCipher) (packet : Bytes) (rtp : RtpHeader) (payload : Bytes) : Prop :=
  parseHeader packet = .ok rtp ∧ T.decryptPayloadInto packet rtp = .ok payload

/-- A receiver gets an error for the datagram. -/
def Rejects (T : TransportCipher) (packet : Bytes) : Prop :=
  (∃ error, parseHeader packet = .error error) ∨
    ∃ rtp error, parseHeader packet = .ok rtp ∧ T.decryptPayloadInto packet rtp = .error error

/-- The last byte does not count the padding: there is none, it is zero, or too large. -/
def BadPadding (payload : Bytes) : Prop :=
  ∀ last, payload.getLast? = some last → last = 0 ∨ payload.length < last.toNat

lemma stripPadding_bad {payload : Bytes} (h : BadPadding payload) :
    ∃ error, stripPadding payload = .error error := by
  unfold stripPadding
  rcases hlast : payload.getLast? with _ | last
  · exact ⟨_, rfl⟩
  · have hbad : last.toNat = 0 ∨ payload.length < last.toNat := by
      rcases h last hlast with rfl | hlong
      · exact .inl rfl
      · exact .inr hlong
    exact ⟨_, if_pos hbad⟩

lemma strip_bad {h : ClearHeader} {body : Bytes}
    (hbad : body.length < h.extensionLen ∨
      h.padding = true ∧ BadPadding (body.drop h.extensionLen)) :
    ∃ error, stripDecryptedRtpPayload body h.extensionLen h.header = .error error := by
  unfold stripDecryptedRtpPayload
  by_cases hshort : body.length < h.extensionLen
  · exact ⟨_, if_pos hshort⟩
  · obtain ⟨hpadding, hcount⟩ := hbad.resolve_left hshort
    obtain ⟨error, herror⟩ := stripPadding_bad hcount
    refine ⟨error, ?_⟩
    rw [if_neg hshort]
    exact (if_pos hpadding).trans herror

/-- The header of an outbound packet. -/
def outbound (params : OutboundEncryptParams) (h : params.header.payloadType < 128) :
    ClearHeader where
  fields := params.header
  marker := params.marker
  padding := false
  csrcs := []
  extension := none
  payloadType_lt := h
  csrcs_le := Nat.zero_le _

lemma bytes_outbound (params : OutboundEncryptParams) (h : params.header.payloadType < 128) :
    (outbound params h).bytes = headerBytes params.header params.marker := by
  have hbits : (rtpVersion <<< 6) ||| (0 : UInt8) ||| (0 : UInt8) ||| UInt8.ofNat 0 =
      rtpVersion <<< 6 := by decide
  have hfirst : (outbound params h).firstByte = rtpVersion <<< 6 := hbits
  rw [ClearHeader.bytes, ClearHeader.fixedBytes, hfirst]
  simp only [ClearHeader.csrcBytes, ClearHeader.extensionBytes, outbound, List.flatMap_nil,
    List.append_nil]
  rfl

lemma encryptPayload_eq {T : TransportCipher} {params : OutboundEncryptParams}
    {frame packet : Bytes} (h : params.header.payloadType < 128)
    (hsealed : (outbound params h).sealed T params.nonceSuffix frame = some packet) :
    T.encryptPayload params frame = .ok (outboundHeader params.header params.marker, packet) := by
  obtain ⟨⟨encrypted, tag⟩, hencrypt, rfl⟩ := Option.map_eq_some_iff.mp hsealed
  rw [bytes_outbound] at hencrypt
  simp only [TransportCrypto.encryptPayload, hencrypt, bytes_outbound]

/-- **rtpsize packets are read back.** A well-formed packet is opened to its header and payload,
so is every packet of `encrypt_payload`, and one whose padding or extension does not fit into its
body is rejected. -/
theorem opens_sealed (T : TransportCipher) :
    (∀ (p : RtpPacket) nonceSuffix, ∃ packet,
      p.clear.sealed T nonceSuffix p.body = some packet ∧
      Opens T packet p.clear.header p.payload) ∧
    (∀ params frame, params.header.payloadType < 128 → ∃ packet,
      T.encryptPayload params frame = .ok (outboundHeader params.header params.marker, packet) ∧
      Opens T packet (outboundHeader params.header params.marker) frame) ∧
    ∀ (h : ClearHeader) nonceSuffix body packet, h.sealed T nonceSuffix body = some packet →
      body.length < h.extensionLen ∨
        h.padding = true ∧ BadPadding (body.drop h.extensionLen) →
      Rejects T packet := by
  refine ⟨fun p nonceSuffix => ?_, fun params frame hlt => ?_, ?_⟩
  · obtain ⟨packet, rest, hsealed, rfl, hrest⟩ := p.clear.exists_sealed T nonceSuffix p.body
    refine ⟨_, hsealed, ?_, ?_⟩
    · have hfits : ¬ rest.length < p.clear.extensionLen := by
        rw [p.extensionLen_clear, hrest, RtpPacket.body, List.length_append, List.length_append]
        omega
      rw [ClearHeader.parseHeader_bytes, if_neg hfits]
    · rw [p.clear.decryptPayloadInto_sealed hsealed, p.strip_body]
      rfl
  · obtain ⟨packet, rest, hsealed, rfl, hrest⟩ :=
      (outbound params hlt).exists_sealed T params.nonceSuffix frame
    have hheader : (outbound params hlt).header = outboundHeader params.header params.marker := rfl
    refine ⟨_, encryptPayload_eq hlt hsealed, ?_, ?_⟩
    · have hnone : (outbound params hlt).extensionLen = 0 := rfl
      rw [ClearHeader.parseHeader_bytes, hnone, if_neg (Nat.not_lt_zero _), hheader]
    · rw [← hheader, (outbound params hlt).decryptPayloadInto_sealed hsealed]
      rfl
  · intro h nonceSuffix body packet hsealed hbad
    obtain ⟨packet', rest, hsealed', rfl, -⟩ := h.exists_sealed T nonceSuffix body
    obtain rfl := Option.some.inj (hsealed.symm.trans hsealed')
    obtain ⟨error, herror⟩ := strip_bad hbad
    by_cases hrest : rest.length < h.extensionLen
    · exact .inl ⟨_, by rw [ClearHeader.parseHeader_bytes, if_pos hrest]⟩
    · refine .inr ⟨h.header, .rtp error, ?_, ?_⟩
      · rw [ClearHeader.parseHeader_bytes, if_neg hrest]
      · rw [h.decryptPayloadInto_sealed hsealed, herror]
        rfl

/-- A cipher for the examples. -/
def plainCipher : TransportCipher where
  mode := .aeadXChaCha20Poly1305RtpSize
  encryptInPlaceDetached _ _ payload := some (payload, List.replicate aeadTagLen 0)
  isSome_encrypt _ _ _ := rfl
  decryptInPlaceDetached _ _ payload _ := some payload
  length_encrypt h := by
    cases h
    exact ⟨rfl, rfl⟩
  decrypt_encrypt h := by
    cases h
    rfl

/-- A packet with a contributing source, one word of extension and two bytes of padding, ... -/
def padded : RtpPacket where
  fields := ⟨7, 960, 5, 120⟩
  marker := true
  csrcs := [9]
  extension := some (0xbede, [1, 2, 3, 4])
  payload := [0xaa, 0xbb]
  padding := some [0]
  payloadType_lt := by decide
  csrcs_le := by decide
  extension_words := by
    rintro profile body ⟨⟩
    exact ⟨1, by decide, rfl⟩
  padding_lt := by
    rintro filler ⟨⟩
    decide

/-- ... and the same header over a body that is all extension. -/
theorem opens_padded :
    (∃ packet, padded.clear.sealed plainCipher 3 padded.body = some packet ∧
      Opens plainCipher packet padded.clear.header [0xaa, 0xbb]) ∧
    (∃ packet, plainCipher.encryptPayload ⟨padded.fields, false, 3⟩ [1] =
        .ok (outboundHeader padded.fields false, packet) ∧
      Opens plainCipher packet (outboundHeader padded.fields false) [1]) ∧
    ∃ packet, padded.clear.sealed plainCipher 3 [1, 2, 3, 4] = some packet ∧
      Rejects plainCipher packet := by
  obtain ⟨hopens, hundoes, hrejects⟩ := opens_sealed plainCipher
  refine ⟨hopens padded 3, hundoes ⟨padded.fields, false, 3⟩ [1] (by decide), _, rfl, ?_⟩
  exact hrejects padded.clear 3 [1, 2, 3, 4] _ rfl (.inr ⟨rfl, nofun⟩)

end Cacophony.RtpsizeRoundTrip
