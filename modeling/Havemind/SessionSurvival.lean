import Havemind.SecretStanding

/-!
An honest session survives. Nothing the client can send marks the family, and a
new process gets an access token from the stored secrets alone. A deadline that
passes ends the session, and time does not run back. An error of the server's
storage ends it too when it falls on the repetition of a rotation.
-/
namespace Havemind.SessionSurvival

open RevisionSchema Transaction Endings Runs AuthTables AuthChanges SessionRepository RefreshFamily
  RotationSuccess AccessToken RotationAnswers SecretStanding

variable {server : AuthServer} {generators : Generators} {w w' : World} {family : FamilyRow}
  {record : PendingRotation} {familyId : Id} {db : AuthDatabase} {now : Timestamp} {token : Token}

/-- Nothing fails and the clock stands still. -/
def undisturbed (_ : World) : Action → Prop
  | .getAccessToken _ | .proceed | .serve => True
  | _ => False

/-- A session as it is handed to a client: the family serviceable, the token its
current one, and every later draw unknown to the server. -/
structure Paired (server : AuthServer) (generators : Generators) (familyId : Id)
    (db : AuthDatabase) (now : Timestamp) (token : Token) : Prop where
  family : ∃ family, family.id = familyId ∧ Serviceable server db family
  token : ∃ row ∈ db.refreshTokens, row.tokenHash = server.hashToken token ∧
    row.familyId = familyId ∧ row.consumedAt = none
  room : Roomy now
  successors : ∀ k, SuccessorFree server db (generators.successorToken k)
  accesses : ∀ k, AccessFree server db (generators.accessToken k)

theorem Paired.current (h : Paired server generators familyId db now token) :
    ∃ row, Current server familyId (World.paired db now token) token row := by
  obtain ⟨row, hrow, hhash, hfamily, hunconsumed⟩ := h.token
  exact ⟨row,
    { stored := rfl
      row_mem := hrow
      hash := hhash
      family := hfamily
      unconsumed := hunconsumed
      pending := fun _ hsome => (nomatch hsome)
      request := fun _ hsome => (nomatch hsome)
      phase := trivial }⟩

theorem Paired.survives (h : Paired server generators familyId db now token) :
    ∃ family, family.id = familyId ∧
      Survives server generators (World.paired db now token) family := by
  obtain ⟨row, hcurrent⟩ := h.current
  obtain ⟨family, rfl, hserviceable⟩ := h.family
  have hown : Own server db family.id token := by
    intro other hother hsame
    rw [hserviceable.hashes.eq hother hcurrent.row_mem (hsame.trans hcurrent.hash.symm)]
    exact hcurrent.family
  have hholdings : Holdings server generators family.id (World.paired db now token) :=
    { stored := fun other hsome => Option.some.inj hsome ▸ hown
      loading := fun _ hsome => (nomatch hsome)
      pending := fun _ hsome => (nomatch hsome)
      request := fun _ hsome => (nomatch hsome)
      inFlight := fun _ hsome => (nomatch hsome) }
  exact ⟨family, rfl, h.room, hserviceable, .current hcurrent, hholdings, fun k _ => h.successors k,
    fun k _ => h.accesses k⟩

theorem Paired.reached (distinct : Distinct server generators)
    (h : Paired server generators familyId db now token)
    (reached : Reached (step server generators) (Spared server) (World.paired db now token) w) :
    ∃ family, family.id = familyId ∧ Survives server generators w family := by
  refine reached.invariant (P := fun w => ∃ family, family.id = familyId ∧
    Survives server generators w family) h.survives ?_
  intro w action w' hw hspared hstep
  obtain ⟨family, hid, hsurvives⟩ := hw
  obtain ⟨family', hid', hsurvives'⟩ := hsurvives.step distinct hspared hstep
  exact ⟨family', hid'.trans hid, hsurvives'⟩

theorem reached_proceed {start : World}
    (h : Reached (step server generators) undisturbed start w)
    (hstep : step server generators w .proceed = some w') :
    Reached (step server generators) undisturbed start w' :=
  .step h (show undisturbed w .proceed from trivial) hstep

/-- A new process reads its secrets and sends a request. -/
theorem secrets_send (h : Survives server generators w family) (hstored : w.refreshToken = some token) :
    ∃ w' record, Reached (step server generators) undisturbed (restart w) w' ∧
      Frame w w' ∧ Survives server generators w' family ∧ w'.phase = .sending record := by
  let reading : World := { restart w with phase := .readingToken }
  let loading : World := { restart w with phase := .loadingPending token }
  have hreading : step server generators (restart w) (.getAccessToken 0) = some reading := rfl
  have hloading : step server generators reading .proceed = some loading := by
    have hread : reading.refreshToken = some token := hstored
    simp only [step, reading, loading] at hread ⊢
    rw [hread]
    rfl
  have hread : Survives server generators reading family := h.restart.getAccessToken 0
  have hloaded : Survives server generators loading family := hread.proceed hloading
  have hstarted : Reached (step server generators) undisturbed (restart w) reading :=
    .step .start (show undisturbed (restart w) (.getAccessToken 0) from trivial) hreading
  have hreached := reached_proceed hstarted hloading
  have hresolved : step server generators loading .proceed =
      some (resolvePendingRotation generators token loading) := rfl
  unfold resolvePendingRotation at hresolved
  cases hmatch : loading.pendingRotation.filter fun record => record.refreshToken = token with
  | some record =>
    rw [hmatch] at hresolved
    exact ⟨_, record, reached_proceed hreached hresolved, ⟨rfl, rfl, rfl, Nat.le_refl _⟩,
      hloaded.proceed hresolved, rfl⟩
  | none =>
    rw [hmatch] at hresolved
    dsimp only at hresolved
    let fresh : PendingRotation :=
      ⟨token, generators.rotationId w.minted, generators.successorToken w.minted⟩
    let saving : World := { loading with phase := .savingPending fresh, minted := w.minted + 1 }
    let saved : World := { saving with pendingRotation := some fresh, phase := .sending fresh }
    have hsaved : step server generators saving .proceed = some saved := rfl
    have hsaving : Survives server generators saving family := hloaded.proceed hresolved
    exact ⟨saved, fresh, reached_proceed (reached_proceed hreached hresolved) hsaved,
      ⟨rfl, rfl, rfl, Nat.le_succ _⟩, hsaving.proceed hsaved, rfl⟩

/-- In time, the request that is about to be sent will be granted. -/
theorem sending_granted (h : Survives server generators w family)
    (hunexpired : w.now < family.expiresAt) (hsafe : family.currentGeneration < maxSafeInteger)
    (hphase : w.phase = .sending record) :
    ∃ result db', rotation server generators record w w.db = .ok result db' ∧
      result.accessToken = generators.accessToken w.served ∧
      Accepted server db' w.now family.id (generators.accessToken w.served) := by
  have haccess := h.access_free w.served (Nat.le_refl _)
  cases h.standing with
  | expired hexpired => exact absurd hexpired (Nat.not_le.mpr hunexpired)
  | current current =>
    have hat := current.phase
    rw [hphase] at hat
    obtain ⟨hpending, rfl⟩ := hat
    obtain ⟨expiresAt, result, db', -, hrun, htext, hgrants, -⟩ :=
      rotateRefresh_current h.serviceable h.room hunexpired current.row_mem current.family
        current.unconsumed current.hash (current.pending record hpending rfl) haccess hsafe
    exact ⟨result, db', hrun, htext, hgrants.accepted⟩
  | rotated rotated =>
    have hat := rotated.phase
    rw [hphase] at hat
    obtain rfl : record = _ := hat
    obtain ⟨result, db', hrun, htext, hgrants, -⟩ :=
      rotateRefresh_repeated h.serviceable h.room hunexpired rotated.row_mem rotated.family
        rotated.consumed rotated.hash rotated.rotation rotated.successorHash rotated.successor_mem
        rotated.successor_family rotated.successor_hash rotated.next rotated.successor_unconsumed
        haccess
    exact ⟨result, db', hrun, htext, hgrants.accepted⟩

/-- A request that will be granted ends with its access token in the client's hands. -/
theorem granted_arrives {result : RotateRefreshResult} {db' : AuthDatabase}
    (hphase : w.phase = .sending record)
    (hrun : rotation server generators record w w.db = .ok result db') :
    ∃ w', Reached (step server generators) undisturbed w w' ∧ w'.db = db' ∧ w'.now = w.now ∧
      w'.cached = some ⟨result.accessExpiresAt, result.accessToken⟩ := by
  let access : IssuedAccess := ⟨result.accessExpiresAt, result.accessToken⟩
  let sent : World := { w with request := some record, answer := none, phase := .requesting record }
  let answered : World := served sent record db' (.ok access)
  let received : World := { answered with phase := .savingToken record access, answer := none }
  let stored : World :=
    { received with
      refreshToken := some record.successorRefreshToken
      phase := .clearingPending (some access) }
  let done : World := { stored with pendingRotation := none, phase := .idle, cached := some access }
  have hsent : step server generators w .proceed = some sent := by
    show AccessToken.proceed generators w = some sent
    unfold AccessToken.proceed
    rw [hphase]
  have hanswered : step server generators sent .serve = some answered :=
    congrArg some (refresh_of_ok hrun)
  have hreceived : step server generators answered .proceed = some received := by
    show Option.map (receive record answered) answered.answer = some received
    rw [show answered.answer = some (.ok access) from if_pos rfl]
    rfl
  have hstored : step server generators received .proceed = some stored := rfl
  have hdone : step server generators stored .proceed = some done := rfl
  have hserved : Reached (step server generators) undisturbed w answered :=
    .step (reached_proceed .start hsent) (show undisturbed sent .serve from trivial) hanswered
  exact ⟨done, reached_proceed (reached_proceed (reached_proceed hserved hreceived) hstored) hdone,
    rfl, rfl, rfl⟩

/-- In every state of an honest session, reached through any losses, rejected
writes and crashes and through errors of the storage that spare a repeated
rotation, the family is in use. As long as it is unexpired and its generations
can be counted, a new process gets from the stored secrets alone an access token
never given out before, which the lookup accepts. -/
theorem session_survives (distinct : Distinct server generators)
    (paired : Paired server generators familyId db now token)
    (reached : Reached (step server generators) (Spared server) (World.paired db now token) w) :
    (∃ family ∈ w.db.families, family.id = familyId) ∧
      ∀ family ∈ w.db.families, family.id = familyId → family.status = .active ∧
        (w.now < family.expiresAt → family.currentGeneration < maxSafeInteger →
          ∃ w', Reached (step server generators) undisturbed (restart w) w' ∧ w'.now = w.now ∧
            ∃ access, w'.cached = some access ∧ AccessFree server w.db access.accessToken ∧
              Accepted server w'.db w'.now familyId access.accessToken) := by
  obtain ⟨current, rfl, h⟩ := paired.reached distinct reached
  refine ⟨⟨current, h.serviceable.family_mem, rfl⟩, fun family hfamily hid => ?_⟩
  obtain rfl : family = current :=
    h.serviceable.chains.families_keyed.eq hfamily h.serviceable.family_mem hid
  refine ⟨h.serviceable.active, fun hunexpired hsafe => ?_⟩
  obtain ⟨token, hstored⟩ : ∃ token, w.refreshToken = some token := by
    cases h.standing with
    | expired hexpired => exact absurd hexpired (Nat.not_le.mpr hunexpired)
    | current current => exact ⟨_, current.stored⟩
    | rotated rotated => exact ⟨_, rotated.stored⟩
  obtain ⟨ready, record, hready, frame, hsurvives, hphase⟩ := secrets_send h hstored
  obtain ⟨result, db', hrun, htext, haccepted⟩ :=
    sending_granted hsurvives (frame.now ▸ hunexpired) hsafe hphase
  obtain ⟨w', hdone, hdb, hnow, hcached⟩ := granted_arrives hphase hrun
  refine ⟨w', hready.trans hdone, hnow.trans frame.now, _, hcached, ?_, ?_⟩
  · rw [htext, frame.served]
    exact h.access_free w.served (Nat.le_refl _)
  · rw [htext, hdb, hnow]
    exact haccepted

/-- Counted draws that no other token repeats. -/
def plainGenerators : Generators where
  rotationId := fun k => k
  successorToken := fun k => k + 100
  accessToken := fun k => k

theorem plain_distinct : Distinct plainServer plainGenerators where
  hashes := fun _ _ h => h
  successors := fun _ _ h => Nat.add_right_cancel h
  accesses := fun _ _ h => h

theorem oneSession_serviceable :
    Serviceable plainServer oneSession (newFamily 2 0 1 3600000) := by
  have hcreated : createFamily plainServer 0 1 7 3600 0 oneDevice =
      .ok ⟨2, 3600000⟩ oneSession := rfl
  refine serviceable_created (chains_of_no_session rfl rfl rfl) ?_ ?_ ?_ ?_ ?_ ?_ (by decide)
    hcreated
  · exact List.nodup_nil
  · constructor <;> exact fun _ hrow => nomatch hrow
  · exact fun _ hrow => nomatch hrow
  · exact fun _ hrow => nomatch hrow
  · exact ⟨_, rfl, rfl⟩
  · exact ⟨_, rfl, rfl⟩

theorem oneSession_paired : Paired plainServer plainGenerators 2 oneSession 0 7 := by
  refine ⟨⟨_, rfl, oneSession_serviceable⟩, ?_, ?_, ?_, ?_⟩
  · exact ⟨_, List.mem_singleton_self _, rfl, rfl, rfl⟩
  · show (_ : ℕ) ≤ _
    decide
  · intro k row hrow
    rw [List.mem_singleton.mp hrow]
    show 7 ≠ k + 100
    omega
  · exact fun _ _ hrow => nomatch hrow

/-- The first answer is lost, and the process dies after the server processed the
repeated request. -/
def interrupted : List Action :=
  [.getAccessToken 0, .proceed, .proceed, .proceed, .proceed, .serve, .reject false, .tick 5000,
    .getAccessToken 5000, .proceed, .proceed, .proceed, .serve, .crash]

def interruptedWorld : World :=
  (run (step plainServer plainGenerators) (World.paired oneSession 0 7) interrupted).getD
    (World.paired oneSession 0 7)

theorem interrupted_reached : Reached (step plainServer plainGenerators) (Spared plainServer)
    (World.paired oneSession 0 7) interruptedWorld := by
  have hrun : run (step plainServer plainGenerators) (World.paired oneSession 0 7) interrupted =
      some interruptedWorld := rfl
  exact Reached.run .start (by decide +kernel) hrun

theorem session_survives_interrupted :
    interruptedWorld.pendingRotation = some ⟨7, 0, 100⟩ ∧
      ∃ w', Reached (step plainServer plainGenerators) undisturbed (restart interruptedWorld) w' ∧
        w'.now = 5000 ∧ ∃ access, w'.cached = some access ∧
          AccessFree plainServer interruptedWorld.db access.accessToken ∧
          Accepted plainServer w'.db w'.now 2 access.accessToken := by
  obtain ⟨⟨family, hmem, hid⟩, hsurvives⟩ :=
    session_survives plain_distinct oneSession_paired interrupted_reached
  have hlive : ∀ family ∈ interruptedWorld.db.families, interruptedWorld.now < family.expiresAt ∧
      family.currentGeneration < maxSafeInteger := by decide +kernel
  obtain ⟨-, hobtains⟩ := hsurvives family hmem hid
  exact ⟨by decide +kernel, hobtains (hlive family hmem).1 (hlive family hmem).2⟩

/-- The answer is lost, the storage throws at the repeated request, and the record
of the rotation is cleared with the answer to it. -/
def storageThrew : List Action :=
  [.getAccessToken 0, .proceed, .proceed, .proceed, .proceed, .serve, .reject false,
    .getAccessToken 0, .proceed, .proceed, .proceed, .serveThrows, .proceed, .proceed,
    .getAccessToken 0, .proceed, .proceed, .proceed, .proceed, .serve]

/-- An error of the storage at the repetition of a rotation has a family in time
marked as reused. -/
theorem session_burned_storageThrew :
    ∃ w, Reached (step plainServer plainGenerators) (fun _ _ => True)
        (World.paired oneSession 0 7) w ∧ w.now = 0 ∧
      ∃ family ∈ w.db.families, w.now < family.expiresAt ∧ family.status = .reuseDetected := by
  let burned : World :=
    (run (step plainServer plainGenerators) (World.paired oneSession 0 7) storageThrew).getD
      (World.paired oneSession 0 7)
  have hrun : run (step plainServer plainGenerators) (World.paired oneSession 0 7) storageThrew =
      some burned := rfl
  refine ⟨burned, Reached.run .start (allowed_of_forall (fun _ _ => trivial) _ _) hrun, ?_⟩
  decide +kernel

end Havemind.SessionSurvival
