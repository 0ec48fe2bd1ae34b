import ManInTheBox.Server.State

/-! # An ideal PAKE

The calls of `ServerPake` and `ClientSession` as an ideal password-authenticated
exchange computes them: a password file determines the secret it was registered
for, and a login finishes exactly for a client that holds this secret. Concrete
runs of the server are evaluated with it.
-/

namespace ManInTheBox.Server

/-- One character for each byte. -/
def encodeBytes (bytes : Bytes) : String := String.ofList (bytes.map fun b => Char.ofNat b.toNat)

def decodeBytes (encoded : String) : Bytes := encoded.toList.map fun c => UInt8.ofNat c.toNat

theorem decodeBytes_encodeBytes (bytes : Bytes) : decodeBytes (encodeBytes bytes) = bytes := by
  have hbyte (b : UInt8) : UInt8.ofNat (Char.ofNat b.toNat).toNat = b := by
    have hvalid : b.toNat.isValidChar := .inl (by have := b.toNat_lt; omega)
    have hnat : (Char.ofNat b.toNat).toNat = b.toNat := by
      rw [Char.ofNat, dif_pos hvalid]
      rfl
    rw [hnat, UInt8.ofNat_toNat]
  rw [decodeBytes, encodeBytes, String.toList_ofList, List.map_map]
  exact (List.map_congr_left fun b _ => hbyte b).trans bytes.map_id

def idealPake : ServerPake where
  encode := encodeBytes
  decode encoded := .ok (decodeBytes encoded)
  registrationResponse _ registrationRequest := .ok registrationRequest
  finishRegistration registrationUpload := .ok registrationUpload
  credentialResponse session := .ok session.passwordFile
  finish session credentialFinalization :=
    if credentialFinalization = session.passwordFile then .ok ()
    else .error "invalid login"

/-- A server with default limits whose operator lets agents create rooms. -/
def idealApp : AppState := ⟨idealPake, { SecurityConfig.default with allowAgentRoomCreation := true }⟩

end ManInTheBox.Server
