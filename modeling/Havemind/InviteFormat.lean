import Havemind.OnboardingValues

/-!
The invitation a member pastes: the server's origin and the invitation token in a
canonical text. Only the text the envelope is written as is read.
-/
namespace Havemind.InviteFormat

open Base64 JsText JsonText OnboardingValues Utf16 List Option

structure InviteEnvelope where
  serverOrigin : JsString
  invitationToken : JsString
  deriving DecidableEq

def envelopePrefix : JsString := ascii "v1."

def maxEnvelopeLength : ℕ := 1024

def versionName : JsString := ascii "version"
def serverOriginName : JsString := ascii "serverOrigin"
def invitationTokenName : JsString := ascii "invitationToken"

def encodeEnvelope (envelope : InviteEnvelope) : JsString :=
  let canonicalJson := stringify (.object
    [(versionName, .number (ascii "1")), (serverOriginName, .string envelope.serverOrigin),
      (invitationTokenName, .string envelope.invitationToken)])
  envelopePrefix ++ encodeBase64Url (encodeUtf8 canonicalJson)

/-- The payload of a text with the prefix and characters of an envelope. -/
def envelopePayload (value : JsString) : Option JsString :=
  let payload := value.drop envelopePrefix.length
  if envelopePrefix.isPrefixOf value ∧ payload ≠ [] ∧ payload.all isTokenUnit then some payload
  else none

/-- Bytes in the one text they have. -/
def decodeCanonical (text : JsString) : Option (List Base64.Byte) := do
  let bytes ← decodeBase64Url text
  if encodeBase64Url bytes = text then some bytes else none

def stringMember (key : JsString) (value : Json) : Option JsString :=
  match value.get key with
  | some (.string text) => some text
  | _ => none

def isInvitationToken (text : JsString) : Bool :=
  invitationPrefix.isPrefixOf text ∧ isTokenPayload (text.drop invitationPrefix.length)

def memberNames : Json → List JsString
  | .object members => (members.map Prod.fst).dedup
  | _ => []

def isVersionNumber : Json → Bool
  | .number literal => isOne literal
  | _ => false

def parseEnvelopeRecord (formats : Formats) (value : Json) : Option InviteEnvelope := do
  let serverOrigin ← stringMember serverOriginName value
  let invitationToken ← stringMember invitationTokenName value
  let version ← value.get versionName
  if (memberNames value).length = 3 ∧ isVersionNumber version ∧
      isCanonicalHttpsOrigin formats serverOrigin ∧ isInvitationToken invitationToken then
    some { serverOrigin, invitationToken }
  else none

/-- Only an envelope that passes both checks is written. -/
def buildInviteEnvelope (formats : Formats) (input : InviteEnvelope) : Option JsString :=
  if isCanonicalHttpsOrigin formats input.serverOrigin ∧ isInvitationToken input.invitationToken then
    some (encodeEnvelope input)
  else none

/-- Every failure is the same format error. -/
def parseInviteEnvelope (formats : Formats) (value : JsString) : Option InviteEnvelope :=
  if maxEnvelopeLength < value.length then none
  else do
    let payload ← envelopePayload value
    let bytes ← decodeCanonical payload
    let decoded ← decodeUtf8 bytes
    let parsed ← parse decoded
    let envelope ← parseEnvelopeRecord formats parsed
    if encodeEnvelope envelope = value then some envelope else none

section
variable (bytes : List Base64.Byte)

/-- The unit of a sextet in the alphabet of URLs. -/
def urlUnit (n : ℕ) : CodeUnit :=
  let unit := unitOfSextet n
  if unit = 43 then hyphen else if unit = 47 then 95 else unit

theorem filter_units {keep : CodeUnit → Bool} (h : ∀ n < 64, keep (unitOfSextet n) = true) :
    ((sextets bytes).map unitOfSextet).filter keep = (sextets bytes).map unitOfSextet := by
  refine filter_eq_self.mpr fun unit hunit => ?_
  obtain ⟨n, hn, rfl⟩ := List.mem_map.mp hunit
  exact h n (sextets_lt bytes n hn)

theorem encodeBase64Url_eq : encodeBase64Url bytes = (sextets bytes).map urlUnit := by
  rw [encodeBase64Url, btoa_eq, filter_append, filter_units bytes (by decide),
    filter_replicate_of_neg (by decide), append_nil, List.map_map]
  rfl

/-- It needs no padding to be read back. -/
theorem decodeBase64Url_encodeBase64Url : decodeBase64Url (encodeBase64Url bytes) = some bytes := by
  have hlt := sextets_lt bytes
  have hlength := sextets_length bytes
  have hunit : ∀ n < 64, (if urlUnit n = hyphen then 43 else if urlUnit n = 95 then 47
      else urlUnit n) = unitOfSextet n := by decide
  have hunits : (sextets bytes).map ((fun unit : CodeUnit => if unit = hyphen then 43
      else if unit = 95 then 47 else unit) ∘ urlUnit) = (sextets bytes).map unitOfSextet :=
    map_congr_left fun n hn => hunit n (hlt n hn)
  rw [encodeBase64Url_eq, decodeBase64Url, List.map_map, hunits, atob,
    filter_units bytes (by decide)]
  simp only [withoutPadding, if_neg (getLast?_units hlt), ite_self, mapM_sextetOfUnit hlt,
    map_some, bytesOfSextets_sextets, length_map, hlength]
  rw [if_neg]
  split <;> omega

theorem all_isTokenUnit : (encodeBase64Url bytes).all isTokenUnit = true := by
  have hunit : ∀ n < 64, isTokenUnit (urlUnit n) = true := by decide
  rw [encodeBase64Url_eq, List.all_map, List.all_eq_true]
  exact fun n hn => hunit n (sextets_lt bytes n hn)

end

variable {formats : Formats} {envelope : InviteEnvelope} {value : JsString}

/-- The value an envelope is the text of. -/
def envelopeJson (envelope : InviteEnvelope) : Json :=
  .object
    [(versionName, .number (ascii "1")), (serverOriginName, .string envelope.serverOrigin),
      (invitationTokenName, .string envelope.invitationToken)]

theorem written_envelopeJson (envelope : InviteEnvelope) : Written (envelopeJson envelope) := by
  refine .object fun member hmember => ?_
  simp only [mem_cons, not_mem_nil, or_false] at hmember
  rcases hmember with rfl | rfl | rfl
  · exact .number isNatural_one
  · exact .string _
  · exact .string _

theorem parseInviteEnvelope_encodeEnvelope
    (horigin : isCanonicalHttpsOrigin formats envelope.serverOrigin = true)
    (htoken : isInvitationToken envelope.invitationToken = true)
    (hlength : (encodeEnvelope envelope).length ≤ maxEnvelopeLength) :
    parseInviteEnvelope formats (encodeEnvelope envelope) = some envelope := by
  obtain ⟨decoded, hdecoded, hparsed⟩ :=
    bind_eq_some_iff.mp (parse_decodeUtf8_stringify (written_envelopeJson envelope))
  obtain ⟨bytes, hbytes⟩ : ∃ bytes, encodeUtf8 (stringify (envelopeJson envelope)) = bytes :=
    ⟨_, rfl⟩
  have hvalue : encodeEnvelope envelope = envelopePrefix ++ encodeBase64Url bytes := hbytes ▸ rfl
  have hread := decodeBase64Url_encodeBase64Url bytes
  rw [hbytes] at hdecoded
  have hsome : encodeBase64Url bytes ≠ [] := by
    intro hnil
    rw [hnil] at hread
    rw [← some.inj hread] at hdecoded
    cases hdecoded
    cases hparsed
  have hpayload : envelopePayload (encodeEnvelope envelope) = some (encodeBase64Url bytes) := by
    rw [envelopePayload, hvalue, drop_left, if_pos]
    exact ⟨ isPrefixOf_iff_prefix.mpr ( prefix_append _ _), hsome, all_isTokenUnit _⟩
  have hcanonical : decodeCanonical (encodeBase64Url bytes) = some bytes := by
    rw [decodeCanonical, hread]
    exact if_pos rfl
  have hrecord : parseEnvelopeRecord formats (envelopeJson envelope) = some envelope :=
    if_pos ⟨rfl, by decide, horigin, htoken⟩
  rw [parseInviteEnvelope, if_neg (Nat.not_lt.mpr hlength)]
  simp only [hpayload, hcanonical, hdecoded, hparsed, hrecord, bind_eq_bind, bind_some]
  exact if_pos trivial

theorem parseInviteEnvelope_sound (h : parseInviteEnvelope formats value = some envelope) :
    value.length ≤ maxEnvelopeLength ∧ buildInviteEnvelope formats envelope = some value := by
  obtain ⟨hlength, h⟩ := ite_none_left_eq_some.mp h
  obtain ⟨payload, -, h⟩ := bind_eq_some_iff.mp h
  obtain ⟨bytes, -, h⟩ := bind_eq_some_iff.mp h
  obtain ⟨decoded, -, h⟩ := bind_eq_some_iff.mp h
  obtain ⟨parsed, -, h⟩ := bind_eq_some_iff.mp h
  obtain ⟨found, hfound, h⟩ := bind_eq_some_iff.mp h
  obtain ⟨hencoded, hsame⟩ := ite_none_right_eq_some.mp h
  cases hsame
  obtain ⟨origin, -, hfound⟩ := bind_eq_some_iff.mp hfound
  obtain ⟨token, -, hfound⟩ := bind_eq_some_iff.mp hfound
  obtain ⟨version, -, hfound⟩ := bind_eq_some_iff.mp hfound
  obtain ⟨haccepted, hsame⟩ := ite_none_right_eq_some.mp hfound
  cases hsame
  exact ⟨Nat.not_lt.mp hlength, hencoded ▸ if_pos haccepted.2.2⟩

theorem parseInviteEnvelope_eq_some (h : parseInviteEnvelope formats value = some envelope) :
    isCanonicalHttpsOrigin formats envelope.serverOrigin = true ∧ value ≠ [] := by
  obtain ⟨haccepted, hbuilt⟩ := ite_none_right_eq_some.mp (parseInviteEnvelope_sound h).2
  cases hbuilt
  exact ⟨haccepted.1, nofun⟩

/-- The texts that are accepted are those that are written, up to the limit of their length, and
each is read back to what it was written for. -/
theorem parseInviteEnvelope_iff_built : parseInviteEnvelope formats value = some envelope ↔
    value.length ≤ maxEnvelopeLength ∧ buildInviteEnvelope formats envelope = some value := by
  refine ⟨parseInviteEnvelope_sound, ?_⟩
  rintro ⟨hlength, hbuilt⟩
  obtain ⟨haccepted, hsame⟩ := ite_none_right_eq_some.mp hbuilt
  cases hsame
  exact parseInviteEnvelope_encodeEnvelope haccepted.1 haccepted.2 hlength

end Havemind.InviteFormat
