/-
Binary frames. One that holds a text is handled as that text, down to the last event. Any other is
refused, without a call of any backend, and the client is told where the longest beginning ends that
is a text.
-/
import Polyglot.Proofs.Response.Echo
import Polyglot.Proofs.Text.Decoding

namespace Polyglot.Dispatch

open Json
open Text.Utf8 (encode)

/-- A text is handled alike in both kinds of frames. -/
theorem handleBytes_encode (host : Host) (registry : Registry) (text : List Char) :
    handleBytes host registry (encode text) = handle host registry text := by
  rw [handleBytes, Text.Utf8.decode_encode]

/-- The failure of a frame that holds no text. -/
def noText (words : String) : Failure := .malformedRequest ("binary frame is not UTF-8: " ++ words)

theorem handleBytes_of_error (host : Host) (registry : Registry) {bytes : List UInt8}
    {fault : Text.Utf8.Fault} (h : Text.Utf8.decode bytes = .error fault) :
    handleBytes host registry bytes = ⟨Response.encodeFailure (noText fault.message),
      [.requestFailed (noText fault.message)], [], 0⟩ := by
  rw [handleBytes, h]
  rfl

/-- Words that say at which index a text breaks off. -/
def SaysIndex (words : String) (index : Nat) : Prop :=
  words = "incomplete utf-8 byte sequence from index " ++ toString index ∨
  ∃ length, 1 ≤ length ∧ length ≤ 3 ∧
    words = "invalid utf-8 sequence of " ++ toString length ++ " bytes from index " ++ toString index

theorem saysIndex_message {fault : Text.Utf8.Fault} {index : Nat} (h : fault.IsAt index) :
    SaysIndex fault.message index := by
  rcases h with rfl | ⟨length, hpos, hthree, rfl⟩
  · exact .inl rfl
  · exact .inr ⟨length, hpos, hthree, rfl⟩

/-- A binary frame with the bytes of a text gives the response, the calls and the events that the
text gives. Any other binary frame calls no backend; it is refused as malformed, and the failure,
which the response reads back to, names the length of the longest beginning that is a text. -/
theorem binary_as_text (host : Host) (registry : Registry) (bytes : List UInt8) :
    let handled := handleBytes host registry bytes
    (∀ text, encode text = bytes → handled = handle host registry text) ∧
    ((∀ text, encode text ≠ bytes) →
      ∃ text words, encode text <+: bytes ∧
        (∀ text', encode text' <+: bytes → (encode text').length ≤ (encode text).length) ∧
        SaysIndex words (encode text).length ∧
        handled =
          ⟨Response.encodeFailure (noText words), [.requestFailed (noText words)], [], 0⟩ ∧
        parse handled.response.toList =
          .ok (.object [(Request.errorField, .string (noText words).message)])) := by
  intro handled
  constructor
  · rintro text rfl
    exact handleBytes_encode host registry text
  · intro hbytes
    obtain ⟨text, fault, hfault, hat, hprefix, hlongest⟩ := Text.Utf8.decode_eq_error_of_ne hbytes
    have hhandled : handled = _ := handleBytes_of_error host registry hfault
    refine ⟨text, fault.message, hprefix, hlongest, saysIndex_message hat, hhandled, ?_⟩
    rw [hhandled]
    exact Response.parse_encodeFailure (noText fault.message)

/-- Two of the three bytes of a character between quotation marks are no text, but the mark before
them is; and two bytes that are a whole character are handled as that one. -/
theorem binary_as_text_broken :
    let registry := Registry.ofBackend silent
    let broken : List UInt8 := [0x22, 0xE2, 0x82, 0x22]
    (∀ text, encode text ≠ broken) ∧
    (∃ text words, 1 ≤ (encode text).length ∧ SaysIndex words (encode text).length ∧
      (handleBytes quiet registry broken).calls = [] ∧
      (handleBytes quiet registry broken).events = [.requestFailed (noText words)]) ∧
    encode ['é'] = [0xC3, 0xA9] ∧
    handleBytes quiet registry [0xC3, 0xA9] = handle quiet registry ['é'] := by
  intro registry broken
  have hbroken (text : List Char) : encode text ≠ broken := by
    rintro htext
    have hfails : (Text.Utf8.decode broken).isOk = false := by decide +kernel
    rw [← htext, Text.Utf8.decode_encode] at hfails
    cases hfails
  have hwhole : encode ['é'] = [0xC3, 0xA9] := by decide +kernel
  obtain ⟨text, words, -, hlongest, hwords, hhandled, -⟩ :=
    (binary_as_text quiet registry broken).2 hbroken
  refine ⟨hbroken, ⟨text, words, hlongest ['"'] ⟨[0xE2, 0x82, 0x22], rfl⟩, hwords, ?_, ?_⟩, hwhole,
    (binary_as_text quiet registry [0xC3, 0xA9]).1 ['é'] hwhole⟩
  · rw [hhandled]
  · rw [hhandled]

end Polyglot.Dispatch
