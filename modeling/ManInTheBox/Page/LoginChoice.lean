import ManInTheBox.Library.Fallible
import ManInTheBox.Host.Meeting
import ManInTheBox.Page.PakeBridge

/-! # The choice among login candidates

The server offers a response for each password file of the room, and the client looks for
the one that its secret code opens. The agent and the page do so with the same session, but
the agent gives up at a response that is no base64.
-/

namespace ManInTheBox.Page

open Library Server Host

variable (crates : Crates) (client : ClientSession)

/-- Whether a login is finished depends on the response alone. -/
def FinishesByResponse : Prop :=
  ∀ rng rng' response, (client.finishLogin crates.pake rng response).isOk =
    (client.finishLogin crates.pake rng' response).isOk

def decodes (candidate : PakeCredentialCandidate) : Bool :=
  (crates.decode candidate.credentialResponse).isOk

def verifies (candidate : PakeCredentialCandidate) : Bool :=
  match crates.decode candidate.credentialResponse with
  | .error _ => false
  | .ok response => (client.finishLogin crates.pake 0 response).isOk

/-- The session after a login. -/
def loggedIn : ClientSession := { client with loginState := none }

/-- What the session may return for a candidate, with some draw. -/
def Finishes (candidate : PakeCredentialCandidate) (finalization : Bytes) : Prop :=
  ∃ rng response, crates.decode candidate.credentialResponse = .ok response ∧
    client.finishLogin crates.pake rng response = .ok (finalization, loggedIn client)

/-- The first candidate that verifies is chosen, and there is an error when there is none. -/
def HostChooses (candidates : List PakeCredentialCandidate)
    (result : Except String (String × Bytes × ClientSession)) : Prop :=
  match candidates.find? (verifies crates client) with
  | none => ∃ error, result = .error error
  | some candidate => ∃ finalization, Finishes crates client candidate finalization ∧
      result = .ok (candidate.candidateId, finalization, loggedIn client)

/-- The same of the page, where the session stays under its handle. -/
def PageChooses (handle : UInt32) (candidates : List PakeCredentialCandidate)
    (result : Except String (String × Option String) × Bridge) : Prop :=
  match candidates.find? (verifies crates client) with
  | none => (∃ error, result.1 = .error error) ∧ result.2.sessions.lookup handle = some client
  | some candidate => ∃ finalization, Finishes crates client candidate finalization ∧
      result.1 = .ok (candidate.candidateId, some (crates.encode finalization)) ∧
      result.2.sessions.lookup handle = some (loggedIn client)

/-- What stands in front of the first candidate that verifies is base64. -/
def DecodesUpToChoice (candidates : List PakeCredentialCandidate) : Prop :=
  (∃ candidate ∈ candidates, verifies crates client candidate = true) →
    ∀ candidate ∈ candidates.takeWhile (fun candidate => !verifies crates client candidate),
      decodes crates candidate = true

variable {crates client} {candidate : PakeCredentialCandidate}
  {candidates : List PakeCredentialCandidate}

/-! ## One candidate -/

/-- A login that is finished uses up its state. -/
theorem finishLogin_loggedIn {rng : ℕ} {response finalization : Bytes} {after : ClientSession}
    (h : client.finishLogin crates.pake rng response = .ok (finalization, after)) :
    after = loggedIn client := by
  rw [ClientSession.finishLogin] at h
  split at h
  · cases h
  · obtain ⟨_, -, hafter⟩ := bind_eq_ok.mp h
    exact (Prod.mk.inj (Except.ok.inj hafter)).2.symm

theorem exists_finishLogin (hresponse : FinishesByResponse crates client)
    (h : verifies crates client candidate = true) (rng : ℕ) :
    ∃ response finalization, crates.decode candidate.credentialResponse = .ok response ∧
      client.finishLogin crates.pake rng response = .ok (finalization, loggedIn client) := by
  unfold verifies at h
  split at h
  · cases h
  case h_2 response hdecode =>
    rw [hresponse 0 rng] at h
    cases hfinish : client.finishLogin crates.pake rng response with
    | error error =>
      rw [hfinish] at h
      cases h
    | ok finished =>
      obtain ⟨finalization, after⟩ := finished
      obtain rfl := finishLogin_loggedIn hfinish
      exact ⟨response, finalization, hdecode, hfinish⟩

theorem exists_error (hresponse : FinishesByResponse crates client)
    (h : verifies crates client candidate = false) {response : Bytes}
    (hdecode : crates.decode candidate.credentialResponse = .ok response) (rng : ℕ) :
    ∃ error, client.finishLogin crates.pake rng response = .error error := by
  rw [verifies, hdecode] at h
  simp only at h
  rw [hresponse 0 rng] at h
  cases hfinish : client.finishLogin crates.pake rng response with
  | error error => exact ⟨error, rfl⟩
  | ok finished =>
    rw [hfinish] at h
    cases h

/-! ## The page -/

section Page

variable {draws : ℕ → ℕ} {bridge : Bridge} {handle : UInt32}
  (hsession : bridge.sessions.lookup handle = some client)

include hsession

theorem call_of_verifies (hresponse : FinishesByResponse crates client)
    (h : verifies crates client candidate = true) :
    ∃ login bridge' finalization,
      call crates draws bridge (.finishLogin handle candidate.credentialResponse) =
        (.ok login, bridge') ∧
      Finishes crates client candidate finalization ∧
      login.credentialFinalization = some (crates.encode finalization) ∧
      bridge'.sessions.lookup handle = some (loggedIn client) := by
  obtain ⟨response, finalization, hdecode, hfinish⟩ := exists_finishLogin hresponse h (draws 0)
  have hprocess : processRequest crates draws bridge
      (.finishLogin handle candidate.credentialResponse) =
        (.ok { ok := true, credentialFinalization := some (crates.encode finalization) },
          { bridge with sessions := bridge.sessions.insert handle (loggedIn client) }) := by
    rw [processRequest, hdecode]
    simp only [Bridge.withSession, hsession, finishLogin, hfinish]
  exact ⟨_, _, finalization, call_of_ok hprocess rfl, ⟨_, response, hdecode, hfinish⟩, rfl,
    AList.lookup_insert _⟩

/-- Whatever is wrong with a response, the call throws and the session stays as it is. -/
theorem call_of_not_verifies (hresponse : FinishesByResponse crates client)
    (h : verifies crates client candidate = false) :
    ∃ error bridge',
      call crates draws bridge (.finishLogin handle candidate.credentialResponse) =
        (.error error, bridge') ∧
      bridge'.sessions.lookup handle = some client := by
  cases hdecode : crates.decode candidate.credentialResponse with
  | error error =>
    have hprocess : processRequest crates draws bridge
        (.finishLogin handle candidate.credentialResponse) = (.error error, bridge) := by
      rw [processRequest, hdecode]
    obtain ⟨thrown, hcall⟩ := call_of_error hprocess
    exact ⟨thrown, bridge, hcall, hsession⟩
  | ok response =>
    obtain ⟨error, hfinish⟩ := exists_error hresponse h hdecode (draws 0)
    have hprocess : processRequest crates draws bridge
        (.finishLogin handle candidate.credentialResponse) =
          (.error error, { bridge with sessions := bridge.sessions.insert handle client }) := by
      rw [processRequest, hdecode]
      simp only [Bridge.withSession, hsession, finishLogin, hfinish]
    obtain ⟨thrown, hcall⟩ := call_of_error hprocess
    exact ⟨thrown, _, hcall, AList.lookup_insert _⟩

/-- The page finds the first candidate that verifies, whatever stands in front of it. -/
theorem pageChooses (hresponse : FinishesByResponse crates client) (lastError : Option String)
    (candidates : List PakeCredentialCandidate) :
    PageChooses crates client handle candidates
      (selectLoginCandidate crates handle draws bridge lastError candidates) := by
  induction candidates generalizing draws bridge lastError with
  | nil => exact ⟨⟨_, rfl⟩, hsession⟩
  | cons candidate candidates ih =>
    cases h : verifies crates client candidate with
    | true =>
      obtain ⟨login, bridge', finalization, hcall, hfinishes, hlogin, hafter⟩ :=
        @call_of_verifies _ _ _ draws _ _ hsession hresponse h
      rw [PageChooses, List.find?_cons_of_pos h, selectLoginCandidate, hcall]
      exact ⟨finalization, hfinishes, by rw [← hlogin], hafter⟩
    | false =>
      obtain ⟨error, bridge', hcall, hafter⟩ :=
        @call_of_not_verifies _ _ _ draws _ _ hsession hresponse h
      rw [PageChooses, List.find?_cons_of_neg (by simp [h]), selectLoginCandidate, hcall]
      exact ih hafter (some error)

end Page

/-! ## The agent -/

theorem decodesUpToChoice_cons_of_verifies (h : verifies crates client candidate = true) :
    DecodesUpToChoice crates client (candidate :: candidates) := by
  intro _ other hother
  rw [List.takeWhile_cons_of_neg (by simp [h])] at hother
  cases hother

theorem decodesUpToChoice_cons_of_not_verifies (h : verifies crates client candidate = false) :
    DecodesUpToChoice crates client (candidate :: candidates) ↔
      (∃ other ∈ candidates, verifies crates client other = true) →
        decodes crates candidate = true ∧
          ∀ other ∈ candidates.takeWhile (fun other => !verifies crates client other),
            decodes crates other = true := by
  rw [DecodesUpToChoice, List.takeWhile_cons_of_pos (by simp [h])]
  simp [h]

theorem exists_verifies_iff :
    (∃ candidate ∈ candidates, verifies crates client candidate = true) ↔
      candidates.find? (verifies crates client) ≠ none := by
  simp [List.find?_eq_none]

/-- The agent finds the first candidate that verifies if it gets there. -/
theorem hostChooses_iff (hresponse : FinishesByResponse crates client) (draws : ℕ → ℕ)
    (lastError : Option String) (candidates : List PakeCredentialCandidate) :
    HostChooses crates client candidates
        (Agent.selectLoginCandidate crates draws client lastError candidates) ↔
      DecodesUpToChoice crates client candidates := by
  induction candidates generalizing draws lastError with
  | nil => exact iff_of_true ⟨_, rfl⟩ (by simp [DecodesUpToChoice])
  | cons candidate candidates ih =>
    cases h : verifies crates client candidate with
    | true =>
      obtain ⟨response, finalization, hdecode, hfinish⟩ :=
        exists_finishLogin hresponse h (draws 0)
      refine iff_of_true ?_ (decodesUpToChoice_cons_of_verifies h)
      rw [HostChooses, List.find?_cons_of_pos h, Agent.selectLoginCandidate, hdecode]
      simp only [hfinish]
      exact ⟨finalization, ⟨_, response, hdecode, hfinish⟩, rfl⟩
    | false =>
      rw [decodesUpToChoice_cons_of_not_verifies h, HostChooses,
        List.find?_cons_of_neg (by simp [h]), Agent.selectLoginCandidate]
      cases hdecode : crates.decode candidate.credentialResponse with
      | error error =>
        -- The agent returns here, which is right only if nothing verifies further on.
        have hnot : decodes crates candidate = false := by
          rw [decodes, hdecode]
          rfl
        simp only [hnot, Bool.false_eq_true, false_and, imp_false, exists_verifies_iff, not_not]
        cases candidates.find? (verifies crates client) with
        | none => simp
        | some chosen => simp
      | ok response =>
        obtain ⟨error, hfinish⟩ := exists_error hresponse h hdecode (draws 0)
        have hdecodes : decodes crates candidate = true := by
          rw [decodes, hdecode]
          rfl
        simp only [hfinish, hdecodes, true_and]
        exact ih (fun n => draws (n + 1)) (some error)

/-- The agent and the page choose the same candidate, the first one that verifies, as long as
the agent can decode what stands in front of it. -/
theorem choices_agree_iff {bridge : Bridge} {handle : UInt32}
    (hresponse : FinishesByResponse crates client)
    (hsession : bridge.sessions.lookup handle = some client) (draws draws' : ℕ → ℕ)
    (candidates : List PakeCredentialCandidate) :
    HostChooses crates client candidates
        (Agent.selectLoginCandidate crates draws client none candidates) ∧
      PageChooses crates client handle candidates
        (selectLoginCandidate crates handle draws' bridge none candidates) ↔
      DecodesUpToChoice crates client candidates := by
  rw [hostChooses_iff hresponse]
  exact and_iff_left (pageChooses hsession hresponse none candidates)

/-! ## Two candidates -/

/-- The ideal PAKE, with the base64 of the code "k7". -/
def codeCrates : Crates :=
  { idealCrates with
    encode := fun bytes => if bytes = asBytes "k7" then "azc" else encodeBytes bytes
    decode := fun encoded =>
      if encoded = "azc" then .ok (asBytes "k7") else .error "Invalid symbol 63, offset 0." }

/-- A session with a login under way. -/
def codeSession : ClientSession := ⟨asBytes "k7", none, some (asBytes "k7")⟩

def codeBridge : Bridge := ⟨(∅ : Table UInt32 ClientSession).insert 1 codeSession, 2⟩

def openedCandidate : PakeCredentialCandidate := ⟨"opened", "azc"⟩

def garbledCandidate : PakeCredentialCandidate := ⟨"garbled", "?"⟩

/-- The candidate in front is chosen; what follows is not looked at. -/
theorem choices_agree_opened :
    HostChooses codeCrates codeSession [openedCandidate, garbledCandidate]
        (Agent.selectLoginCandidate codeCrates id codeSession none
          [openedCandidate, garbledCandidate]) ∧
      PageChooses codeCrates codeSession 1 [openedCandidate, garbledCandidate]
        (selectLoginCandidate codeCrates 1 id codeBridge none
          [openedCandidate, garbledCandidate]) := by
  have hopened : verifies codeCrates codeSession openedCandidate = true := by decide
  exact (choices_agree_iff (fun _ _ _ => rfl) (AList.lookup_insert _) id id _).mpr
    (decodesUpToChoice_cons_of_verifies hopened)

/-- The agent does not get to the candidate behind the garbled one. -/
theorem not_choices_agree_garbled :
    ¬ (HostChooses codeCrates codeSession [garbledCandidate, openedCandidate]
        (Agent.selectLoginCandidate codeCrates id codeSession none
          [garbledCandidate, openedCandidate]) ∧
      PageChooses codeCrates codeSession 1 [garbledCandidate, openedCandidate]
        (selectLoginCandidate codeCrates 1 id codeBridge none
          [garbledCandidate, openedCandidate])) := by
  rintro ⟨hhost, -⟩
  have hfirst : [garbledCandidate, openedCandidate].find? (verifies codeCrates codeSession) =
      some openedCandidate := by decide
  rw [HostChooses, hfirst] at hhost
  obtain ⟨finalization, -, hresult⟩ := hhost
  cases hresult

end ManInTheBox.Page
