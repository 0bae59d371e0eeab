import RemnanodeLite.Plugin.Budget
import RemnanodeLite.Plugin.FastPath

/-! # The active snapshot can always be applied again -/

namespace RemnanodeLite.Plugin
open Transition

/-- In every run the scripts for the active snapshot, to which a failed change rolls back
and from which tables are recreated, are within the limits of the backend, and no set gets
more elements than its table declares. -/
theorem active_snapshot_fits (c : Codec) (hset : c.MaximalPrefixes) (nft : Option NftManager)
    (hasXray : Bool) (asn : ASNResolver) (kernel : Kernel) (w : World)
    (h : Reach (step c) ⟨newService nft hasXray asn, kernel⟩ w) (options : NftOptions) :
    validateNFTScript (renderNFTConfig c (snapshotFirewall w.service.active) options) = .ok () ∧
    validateNFTScript (renderNFTStaticUpdate c (snapshotFirewall w.service.active)) = .ok () ∧
    ∀ set, (staticElements c (snapshotFirewall w.service.active) set).length ≤ set.size := by
  have hplanned : Planned c Set.univ asn w.service :=
    planned_of_run (h.mono fun _ _ _ _ _ => trivial)
  have hbounded : (snapshotFirewall w.service.active).Bounded := by
    have hempty : FirewallConfig.empty.Bounded := ⟨Nat.zero_le _, Nat.zero_le _⟩
    cases hactive : w.service.active with
    | none => exact hempty
    | some snapshot =>
      obtain ⟨request, -, hplan⟩ := hplanned.2 snapshot hactive
      simp only [snapshotFirewall]
      split
      · exact plan_bounded hplan
      · exact hempty
  have hconfig := validateNFTScript_ok.mpr (fits_of_bounded hset hbounded options)
  exact ⟨hconfig, validate_staticUpdate hconfig, length_staticElements hset hbounded⟩

/-- The theorem after a `Sync` that blocks a prefix. -/
theorem active_snapshot_fits_synced : ∃ w,
    Transition.run (step (mergingCodec (blockedConfig ["10.0.0.0/8"])))
      ⟨newService (some (newNFTManager true ⟨false, false⟩)) true none, fun _ => ∅⟩
      filteringRun = some w ∧
    validateNFTScript (renderNFTStaticUpdate (mergingCodec (blockedConfig ["10.0.0.0/8"]))
      (snapshotFirewall w.service.active)) = .ok () :=
  ⟨_, rfl, (active_snapshot_fits _ (mergingCodec_maximalPrefixes _) _ _ _ _ _
    (run_reach filteringRun rfl) ⟨true, true⟩).2.1⟩

end RemnanodeLite.Plugin
