import RemnanodeLite.Connections.Dropper
import RemnanodeLite.Netadmin.Targeted

/-! # From a request to the sockets

`DropIPs` (`internal/connections/dropper.go`) with `netadmin.KillSocketsByIPs`
(`internal/netadmin/kill_linux.go`) for its killer, down to the destroy requests. -/

namespace RemnanodeLite.Connections
open Netip Bytes Program Netadmin

-- the addresses of the model are valid and have no zone, so there is no error
def normalizeSocketKillTargets (addresses : List Addr) (addr : Addr) : Bool :=
  addr ∈ addresses.map Addr.unmap

def killSocketsByIPs (order : Order) (rounds : ℕ) (addresses : List Addr) : Sock Unit :=
  if addresses = [] then pure ()
  else wrap ("destroy TCP sockets for " ++ toString (addresses.map Addr.unmap).dedup.length ++
      " target IPs: " ++ ·)
    (killSocketsByTargets order (normalizeSocketKillTargets addresses) rounds)

theorem sure_killSocketsByIPs (order : Order) (rounds : ℕ) {targets : List Addr}
    (hne : targets ≠ []) :
    Sure (Allowed order (normalizeSocketKillTargets targets))
      (killSocketsByIPs order rounds targets)
      (fun _ => BothDumped order (normalizeSocketKillTargets targets)) [] := by
  rw [killSocketsByIPs, if_neg hne]
  exact sure_wrap (sure_killSocketsByTargets rounds)

def EndsAt (family : UInt8) (record : Message) (address : Addr) : Prop :=
  inetDiagAddress family (slice record.2 8 24) = .ok address ∨
    inetDiagAddress family (slice record.2 24 40) = .ok address

theorem endsAt_of_touches {targets : List Addr} {family : UInt8} {record : Message}
    (h : touches (normalizeSocketKillTargets targets) family record.2 = true) :
    ∃ address, EndsAt family record address ∧ ∃ target ∈ targets, target.unmap = address.unmap := by
  simp only [touches, isTarget, normalizeSocketKillTargets, Bool.or_eq_true] at h
  grind [EndsAt]

/-- Every destroy request that `DropIPs` makes carries a record of the dump in progress, and
a record is taken only if one end of its socket is an address of the request that is neither
whitelisted nor protected. If it returns true, every address is whitelisted or all sockets
with an end there in two complete dumps were destroyed. -/
theorem dropIPs_sockets (d : Dropper) (ended : ℕ → Bool) (discovered : Option (Addr → Bool))
    (ips : List String) (order : Order) (rounds : ℕ) (world : ℕ → (op : Op) → op.Answer) :
    let killer targets := (killSocketsByIPs order rounds targets).run
    let outcome := d.dropIPs
      ⟨ended, discovered, fun targets => ((killer targets).run recorder world []).1.toBool⟩ ips
    (∀ targets, outcome.handed = some targets →
      ∀ c ∈ calls recorder (killer targets) world [], ∀ request, c.op = .send .destroy request →
        ∃ dumpPort destroyPort rest localIPs,
          c.before = opened dumpPort destroyPort ++ rest ∧
          Warranted order (normalizeSocketKillTargets targets) dumpPort rest request ∧
          (d.refreshLocalIPs discovered).2 = some localIPs ∧
          ∀ family record, touches (normalizeSocketKillTargets targets) family record.2 = true →
            ∃ address target, EndsAt family record address ∧ target.unmap = address.unmap ∧
              Target d localIPs ips target) ∧
    (outcome.result = true → ∀ raw ∈ ips, ∃ addr, readAddr raw = some (addr, []) ∧
      (d.isWhitelisted raw = true ∨ d.isWhitelisted addr.unmap.string = true ∨
        ∃ targets, outcome.handed = some targets ∧ addr.unmap ∈ targets ∧
          BothDumped order (normalizeSocketKillTargets targets)
            ((killer targets).run recorder world []).2)) := by
  intro killer outcome
  rcases dropIPs_cases d ⟨ended, discovered, fun targets =>
      ((killer targets).run recorder world []).1.toBool⟩ ips with
    ⟨rfl, h⟩ | h | ⟨localIPs, b, hlocal, hcollected, hend⟩
  · simp [outcome, h]
  · simp [outcome, h]
  have hhanded : ∀ targets, outcome.handed = some targets → targets = b.targets := by
    rcases hend with ⟨-, h⟩ | h | ⟨-, h⟩ <;> simp [outcome, h, eq_comm]
  refine ⟨fun targets htargets c hc request hop => ?_, fun hresult raw hraw => ?_⟩
  · obtain rfl := hhanded targets htargets
    have hne : b.targets ≠ [] := by
      intro hnil
      simp only [killer, killSocketsByIPs, hnil, if_true] at hc
      cases hc
    have hsure := sure_killSocketsByIPs order rounds hne
    obtain ⟨dumpPort, destroyPort, rest, hbefore, hwarranted⟩ :=
      assured_guar hsure world (fun _ _ => trivial) c hc request hop
    refine ⟨dumpPort, destroyPort, rest, localIPs, hbefore, hwarranted, hlocal, ?_⟩
    intro family record htouches
    obtain ⟨address, hends, target, hmem, hunmap⟩ := endsAt_of_touches htouches
    exact ⟨address, target, hends, hunmap, hcollected.targets target hmem⟩
  · have hok : b.ok = true := by
      rcases hend with ⟨-, h⟩ | h | ⟨-, h⟩ <;> grind
    obtain ⟨addr, hread, hanswer⟩ := hcollected.answered hok raw hraw
    refine ⟨addr, hread, hanswer.imp_right fun h => h.imp_right fun hmem => ?_⟩
    have hne : b.targets ≠ [] := List.ne_nil_of_mem hmem
    rcases hend with ⟨hnil, -⟩ | h | ⟨hkilled, h⟩
    · exact absurd hnil hne
    · simp [outcome, h] at hresult
    · refine ⟨b.targets, by simp [outcome, h], hmem, ?_⟩
      have hdone := assured_run (sure_killSocketsByIPs order rounds hne) world fun _ _ => trivial
      cases hrun : ((killer b.targets).run recorder world []).1 with
      | error e => simp [hrun, Except.toBool] at hkilled
      | ok _ =>
        rw [hrun] at hdone
        exact hdone

end RemnanodeLite.Connections
