import Lightnet.Mirror.PanelView

/-!
# The order of packets

Packets for different groups and settings may change places, and of two for the same one the second
is enough. A stop takes away what the prepares and starts of its group have done.
-/

namespace Lightnet

/-! ### Packets that commute -/

def isStep (packet : AnimationPacket) : Bool :=
  PacketMirror.packetType packet = .animationPrepare ||
    PacketMirror.packetType packet = .animationStart

/-- Whether the order of the packets matters: two prepares for a group, a prepare and a start for
it, or two packets for one setting. -/
def conflicts (a b : AnimationPacket) : Bool :=
  if isStep a then
    isStep b && PacketMirror.key a = PacketMirror.key b &&
      (PacketMirror.packetType a = .animationPrepare ||
        PacketMirror.packetType b = .animationPrepare)
  else PacketMirror.packetType a = PacketMirror.packetType b

def groupStart (v : GroupView) : GroupView :=
  match v.pending with
  | some a => ⟨none, some a.parameters⟩
  | none => v

section
variable (v : Byte → GroupView)

theorem groupsAfter_start (seqId g : Byte) :
    groupsAfter v (.start seqId g) = Function.update v g (groupStart (v g)) := by
  unfold groupStart
  rw [groupsAfter]
  cases (v g).pending with
  | some a => rfl
  | none => exact (Function.update_eq_self g v).symm

theorem groupsAfter_prepare (pkt : PacketAnimationPrepare) :
    groupsAfter v (.prepare pkt) =
      Function.update v pkt.groupId { v pkt.groupId with pending := some pkt.toState } := rfl

theorem groupsAfter_setting {packet : AnimationPacket}
    (hkind : PacketMirror.isSnapshotted packet = true) (h : isStep packet = false) :
    groupsAfter v packet = v := by
  cases packet with
  | prepare pkt => cases h
  | start seqId g => cases h
  | control cmd g => cases hkind
  | _ => rfl

theorem groupStart_groupStart (w : GroupView) : groupStart (groupStart w) = groupStart w := by
  obtain ⟨pending, running⟩ := w
  cases pending <;> rfl

/-- A step for one group is a change of that group's view. -/
theorem groupsAfter_step {packet : AnimationPacket} (h : isStep packet = true) :
    ∃ f : GroupView → GroupView, ∀ v,
      groupsAfter v packet =
        Function.update v (PacketMirror.key packet) (f (v (PacketMirror.key packet))) := by
  cases packet with
  | prepare pkt => exact ⟨fun w => { w with pending := some pkt.toState }, fun v => rfl⟩
  | start seqId g => exact ⟨groupStart, fun v => groupsAfter_start v seqId g⟩
  | _ => cases h

theorem groupsAfter_comm {a b : AnimationPacket} (ha : PacketMirror.isSnapshotted a = true)
    (hb : PacketMirror.isSnapshotted b = true) (h : conflicts a b = false) :
    groupsAfter (groupsAfter v b) a = groupsAfter (groupsAfter v a) b := by
  by_cases hsa : isStep a = true
  · by_cases hsb : isStep b = true
    · obtain ⟨f, hf⟩ := groupsAfter_step hsa
      obtain ⟨f', hf'⟩ := groupsAfter_step hsb
      by_cases hkey : PacketMirror.key a = PacketMirror.key b
      · cases a with
        | start seqId g =>
            cases b with
            | start seqId' g' =>
                have hg : g = g' := hkey
                subst hg
                rw [groupsAfter_start, groupsAfter_start, groupsAfter_start, groupsAfter_start]
            | prepare pkt =>
                rw [conflicts, if_pos hsa, hsb, hkey] at h
                simp [PacketMirror.packetType] at h
            | _ => cases hsb
        | prepare pkt =>
            rw [conflicts, if_pos hsa, hsb, hkey] at h
            simp [PacketMirror.packetType] at h
        | _ => cases hsa
      · rw [hf, hf', hf, hf', Function.update_of_ne hkey, Function.update_of_ne (Ne.symm hkey),
          Function.update_comm hkey]
    · rw [Bool.not_eq_true] at hsb
      rw [groupsAfter_setting _ hb hsb, groupsAfter_setting _ hb hsb]
  · rw [Bool.not_eq_true] at hsa
    rw [groupsAfter_setting _ ha hsa, groupsAfter_setting _ ha hsa]

/-- Of two packets for the same entry the second is enough. -/
theorem groupsAfter_absorb {a b : AnimationPacket} (ha : PacketMirror.isSnapshotted a = true)
    (hb : PacketMirror.isSnapshotted b = true)
    (htype : PacketMirror.packetType b = PacketMirror.packetType a)
    (hkey : PacketMirror.key b = PacketMirror.key a) :
    groupsAfter (groupsAfter v b) a = groupsAfter v a := by
  cases a with
  | prepare pkt =>
      cases b with
      | prepare pkt' =>
          have hg : pkt'.groupId = pkt.groupId := hkey
          rw [groupsAfter_prepare, groupsAfter_prepare, groupsAfter_prepare, hg,
            Function.update_self, Function.update_idem]
      | _ => cases htype
  | start seqId g =>
      cases b with
      | start seqId' g' =>
          have hg : g' = g := hkey
          rw [groupsAfter_start, groupsAfter_start, groupsAfter_start, hg, Function.update_self,
            groupStart_groupStart, Function.update_idem]
      | _ => cases htype
  | control cmd g => cases ha
  | _ =>
      have hsb : isStep b = false := by
        rw [isStep, htype]
        rfl
      rw [groupsAfter_setting v hb hsb]

end

section
variable (v : Appearance)

theorem Appearance.after_comm {a b : AnimationPacket} (h : conflicts a b = false) :
    (v.after b).after a = (v.after a).after b := by
  cases a <;> cases b <;>
    simp_all [conflicts, isStep, PacketMirror.packetType, Appearance.after] <;>
    split_ifs <;> rfl

theorem Appearance.after_absorb {a b : AnimationPacket}
    (htype : PacketMirror.packetType b = PacketMirror.packetType a)
    (hpalette : a ≠ .setPalette []) : (v.after b).after a = v.after a := by
  cases a <;> cases b <;> cases htype <;> try rfl
  have hstops : ∀ stops, AnimationPacket.setPalette stops ≠ .setPalette [] → stops ≠ [] :=
    fun stops h hnil => h (congrArg _ hnil)
  simp only [Appearance.after, if_neg (hstops _ hpalette)]
  split_ifs <;> rfl

end

namespace PanelView

variable (v : PanelView)

theorem after_groups (packet : AnimationPacket) :
    (v.after packet).groups = groupsAfter v.groups packet := rfl

theorem after_comm {a b : AnimationPacket} (ha : PacketMirror.isSnapshotted a = true)
    (hb : PacketMirror.isSnapshotted b = true) (h : conflicts a b = false) :
    (v.after b).after a = (v.after a).after b :=
  PanelView.ext (groupsAfter_comm v.groups ha hb h) (v.appearance.after_comm h)

theorem after_absorb {a b : AnimationPacket} (ha : PacketMirror.isSnapshotted a = true)
    (hb : PacketMirror.isSnapshotted b = true)
    (htype : PacketMirror.packetType b = PacketMirror.packetType a)
    (hkey : PacketMirror.key b = PacketMirror.key a) (hpalette : a ≠ .setPalette []) :
    (v.after b).after a = v.after a :=
  PanelView.ext (groupsAfter_absorb v.groups ha hb htype hkey)
    (v.appearance.after_absorb htype hpalette)

/-! ### Stops -/

/-- A stop for the group `g` ends the groups that this holds of. -/
def stopped (g k : Byte) : Prop := g = 0 ∨ k = g

instance (g k : Byte) : Decidable (stopped g k) := inferInstanceAs (Decidable (_ ∨ _))

theorem groupsAfter_stop (v : Byte → GroupView) (g k : Byte) :
    groupsAfter v (.control .stop g) k = if stopped g k then .empty else v k := rfl

theorem after_stop_of_stopped {g : Byte} {d : AnimationPacket} (hstep : isStep d = true)
    (hkey : stopped g (PacketMirror.key d)) :
    (v.after d).after (.control .stop g) = v.after (.control .stop g) := by
  obtain ⟨f, hf⟩ := groupsAfter_step hstep
  refine PanelView.ext ?_ ?_
  · funext k
    rw [after_groups, after_groups, after_groups, groupsAfter_stop, groupsAfter_stop]
    split_ifs with hk
    · rfl
    · rw [hf, Function.update_of_ne]
      rintro rfl
      exact hk hkey
  · cases d with
    | prepare pkt => rfl
    | start seqId g => rfl
    | _ => cases hstep

theorem after_stop_comm {g : Byte} {d : AnimationPacket}
    (hd : PacketMirror.isSnapshotted d = true)
    (h : isStep d = true → ¬ stopped g (PacketMirror.key d)) :
    (v.after d).after (.control .stop g) = (v.after (.control .stop g)).after d := by
  refine PanelView.ext ?_ ?_
  · rw [after_groups, after_groups, after_groups, after_groups]
    by_cases hstep : isStep d = true
    · obtain ⟨f, hf⟩ := groupsAfter_step hstep
      funext k
      rw [groupsAfter_stop, hf, hf]
      by_cases hk : k = PacketMirror.key d
      · rw [hk, if_neg (h hstep), Function.update_self, Function.update_self, groupsAfter_stop,
          if_neg (h hstep)]
      · rw [Function.update_of_ne hk, Function.update_of_ne hk, groupsAfter_stop]
    · rw [Bool.not_eq_true] at hstep
      rw [groupsAfter_setting _ hd hstep, groupsAfter_setting _ hd hstep]
  · cases d <;> rfl

/-- A start finds nothing to start in a stopped group. -/
theorem after_start_of_stopped {g : Byte} (seqId : Byte) {k : Byte} (hk : stopped g k) :
    (v.after (.control .stop g)).after (.start seqId k) = v.after (.control .stop g) := by
  refine PanelView.ext ?_ rfl
  rw [after_groups, after_groups]
  have hempty : groupsAfter v.groups (.control .stop g) k = .empty := by
    rw [groupsAfter_stop, if_pos hk]
  have hstart : groupStart GroupView.empty = .empty := rfl
  rw [groupsAfter_start, hempty, hstart, ← hempty, Function.update_eq_self]

end PanelView

end Lightnet
