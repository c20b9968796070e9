import Havemind.AuthRuns

/-!
Rejoin grants over a whole run: never two unconsumed ones of a membership, never
two sessions from one grant, and no session but to the bound device with its
secret. A redemption that fails writes nothing.
-/
namespace Havemind.RejoinSafety

open RevisionSchema Endings Runs KeyedTable AuthTables AuthChanges AuthSoundness List RejoinGrants
  AccountChanges AuthRuns
open ServerDatabase (AccountStatus DeviceStatus)

variable {server : AuthServer} {permit : Permit} {base : ℕ} {db db' : AuthDatabase} {grantId : Id}

/-- No grant with this identifier is left to redeem. -/
def GrantSpent (grantId : Id) (db : AuthDatabase) : Prop :=
  ∀ grant ∈ db.rejoinGrants, grant.id = grantId → grant.consumedAt ≠ none

theorem GrantSpent.change (h : GrantSpent grantId db) (hdrawn : Drawn server 0 base grantId)
    (change : Change server permit base db db') : GrantSpent grantId db' := by
  cases change with
  | grantIssued _ id_new =>
    refine forall_concat (forall_updateWhere h fun _ _ _ => by simp) fun heq => ?_
    exact absurd heq (id_new.ne hdrawn)
  | approved approved =>
    obtain ⟨-, -, -⟩ := approved
    exact h
  | removed => exact fun grant hgrant => h grant (mem_grants_withoutUsers hgrant)
  | _ => exact h

theorem grantSpent_kept (hdrawn : Drawn server 0 base grantId) :
    Kept server base (GrantSpent grantId) where
  change := fun h change => h.change hdrawn change
  attempts := fun h => h
  admitted := fun h _ => h
  opened := fun h _ => h
  consumed := fun h => forall_updateWhere h fun _ _ _ => by simp
  pruned := by
    intro s t h pruned
    obtain ⟨keepRefresh, keepAccess, rfl⟩ := pruned
    exact h
  removed := fun h grant hgrant => h grant (mem_grants_withoutUsers hgrant)

/-- The grants that opened a session are spent. -/
def MintedSpent (server : AuthServer) (w : World) : Prop :=
  w.minted.Nodup ∧
    ∀ grantId ∈ w.minted, Drawn server 0 w.db.issued grantId ∧ GrantSpent grantId w.db

/-- What a redemption that returns checked, spends and opens. -/
theorem redemption_mints {input : RedeemRejoinGrantInput} {clock sessionNow : Option Timestamp}
    {result : RedeemRejoinGrantResult}
    (h : redeemGrant server input clock sessionNow db = .ok result db') :
    ∃ now grant membership family, clock = some now ∧
      Redeemable server db input now grant membership ∧
      mintedGrant server db (.redeemGrant input clock sessionNow) = [grant.id] ∧
      GrantSpent grant.id db' ∧ db'.families = db.families ++ [family] ∧
      family.deviceId = input.deviceId := by
  obtain ⟨now, grant, membership, family, token, issued, hclock, hredeemable, -, hdevice, -,
    hafter⟩ := redeemGrant_eq_ok h
  subst hclock
  refine ⟨now, grant, membership, family, rfl, hredeemable, ?_, ?_, ?_, hdevice⟩
  · simp only [mintedGrant, h, hredeemable.live]
  · rw [hafter]
    intro stored hstored hid hnone
    rcases mem_updateWhere.mp hstored with ⟨-, hmiss⟩ | ⟨row, -, -, rfl⟩
    · exact of_decide_eq_false hmiss ⟨hid, hnone⟩
    · cases hnone
  · rw [hafter]
    rfl

/-- An action mints nothing, or it is the redemption of one live grant. -/
theorem mintedGrant_cases (action : AuthAction) :
    mintedGrant server db action = [] ∨
      ∃ grant ∈ db.rejoinGrants, grant.consumedAt = none ∧
        mintedGrant server db action = [grant.id] ∧
        GrantSpent grant.id (afterAction server db action) := by
  cases action with
  | redeemGrant input clock sessionNow =>
    cases hresult : redeemGrant server input clock sessionNow db with
    | error e s =>
      left
      simp only [mintedGrant, hresult]
    | ok result s =>
      obtain ⟨now, grant, membership, family, -, hredeemable, hminted, hspent, -⟩ :=
        redemption_mints hresult
      right
      refine ⟨grant, hredeemable.grant_mem, hredeemable.unconsumed, hminted, ?_⟩
      show GrantSpent grant.id (storeAfter (redeemGrant server input clock sessionNow) db)
      rw [storeAfter_of_ok hresult]
      exact hspent
  | _ => exact .inl rfl

theorem MintedSpent.step {w w' : World} {action : AuthAction} (h : MintedSpent server w)
    (sound : Sound server w.db) (hstep : authStep server w action = some w') :
    MintedSpent server w' := by
  cases hstep
  obtain ⟨hnodup, hspent⟩ := h
  have hcommitted := afterAction_committed sound action
  have hissued : w.db.issued ≤ (afterAction server w.db action).issued :=
    (issued_kept _).committed (Nat.le_refl _) hcommitted
  have hold : ∀ grantId ∈ w.minted,
      Drawn server 0 (afterAction server w.db action).issued grantId ∧
        GrantSpent grantId (afterAction server w.db action) := by
    intro grantId hmem
    obtain ⟨hdrawn, hgrant⟩ := hspent grantId hmem
    exact ⟨hdrawn.mono (Nat.le_refl _) hissued, (grantSpent_kept hdrawn).committed hgrant hcommitted⟩
  rcases @mintedGrant_cases server w.db action with hnone | hone
  · unfold MintedSpent
    rw [hnone, append_nil]
    exact ⟨hnodup, hold⟩
  · obtain ⟨grant, hgrant, hunconsumed, hminted, hspentNow⟩ := hone
    have hfresh : grant.id ∉ w.minted := fun hmem => (hspent grant.id hmem).2 grant hgrant rfl hunconsumed
    unfold MintedSpent
    rw [hminted]
    constructor
    · exact nodup_append.mpr ⟨hnodup, nodup_singleton _, by
        intro a ha b hb heq
        rw [mem_singleton.mp hb] at heq
        exact hfresh (heq ▸ ha)⟩
    · refine forall_concat hold ⟨?_, hspentNow⟩
      exact (sound.issuance.grants grant hgrant).mono (Nat.le_refl _) hissued

/-- At every moment of every run: a membership has at most one unconsumed grant,
no grant opened two sessions, a redemption that returns was made by the bound
device with its secret while everything it needs was live, consumes its grant and
opens one session of that device, and one that fails leaves the database as it was. -/
theorem rejoinGrants_safe {start w : World} (hstart : Sound server start.db)
    (hminted : start.minted = []) (reached : Reached (authStep server) anyCall start w) :
    (∀ membershipId, (w.db.rejoinGrants.filter fun grant =>
        grant.membershipId = membershipId ∧ grant.consumedAt = none).length ≤ 1) ∧
      w.minted.Nodup ∧
      ∀ input clock sessionNow,
        (∀ result db', redeemGrant server input clock sessionNow w.db = .ok result db' →
          ∃ now grant membership family, clock = some now ∧
            Redeemable server w.db input now grant membership ∧
            mintedGrant server w.db (.redeemGrant input clock sessionNow) = [grant.id] ∧
            GrantSpent grant.id db' ∧ db'.families = w.db.families ++ [family] ∧ family.deviceId = input.deviceId) ∧
        ∀ e db', redeemGrant server input clock sessionNow w.db = .error e db' → db' = w.db := by
  have hinvariant : Sound server w.db ∧ MintedSpent server w := by
    refine Reached.invariant (P := fun s => Sound server s.db ∧ MintedSpent server s) reached
      ⟨hstart, ?_⟩ fun s action s' hs _ hstep =>
        ⟨authStep_sound hs.1 hstep, hs.2.step hs.1 hstep⟩
    unfold MintedSpent
    rw [hminted]
    exact ⟨nodup_nil, fun grantId hmem => nomatch hmem⟩
  obtain ⟨hsound, hnodup, -⟩ := hinvariant
  refine ⟨fun membershipId => ?_, hnodup, fun input clock sessionNow => ⟨?_, ?_⟩⟩
  · refine length_le_one (hsound.keys.grants.nodup.filter _) fun a ha b hb => ?_
    obtain ⟨hmemA, hhitA⟩ := mem_filter.mp ha
    obtain ⟨hmemB, hhitB⟩ := mem_filter.mp hb
    obtain ⟨hmembershipA, hnoneA⟩ := of_decide_eq_true hhitA
    obtain ⟨hmembershipB, hnoneB⟩ := of_decide_eq_true hhitB
    exact hsound.grants a hmemA b hmemB (hmembershipA.trans hmembershipB.symm) hnoneA hnoneB
  · exact fun result db' hresult => redemption_mints hresult
  · exact fun e db' herror => redeemGrant_eq_error herror

/-- The member's device rejoins by a grant, which a second redemption does not find. -/
def rejoinedWorld : World :=
  calls plainServer World.empty
    (memberActions ++
      [.createGrant ⟨4, 13⟩ (some 5000), .redeemGrant ⟨13, 12, some 31, some 77⟩ (some 6000) (some 6000),
        .redeemGrant ⟨13, 12, some 32, some 77⟩ (some 7000) (some 7000)])

theorem rejoinGrants_safe_rejoined :
    rejoinedWorld.minted = [16] ∧ rejoinedWorld.db.families.length = 3 ∧
      rejoinedWorld.minted.Nodup ∧
      (rejoinedWorld.db.rejoinGrants.filter fun grant =>
        grant.membershipId = 13 ∧ grant.consumedAt = none).length ≤ 1 := by
  have hsafe := rejoinGrants_safe (sound_empty plainServer) rfl
    (calls_reached World.empty
      (memberActions ++
        [.createGrant ⟨4, 13⟩ (some 5000),
          .redeemGrant ⟨13, 12, some 31, some 77⟩ (some 6000) (some 6000),
          .redeemGrant ⟨13, 12, some 32, some 77⟩ (some 7000) (some 7000)]))
  exact ⟨by decide +kernel, by decide +kernel, hsafe.2.1, hsafe.1 13⟩

end Havemind.RejoinSafety
