import PacketWatch.Proofs.Settings.Yaml

namespace PacketWatch

theorem Setting.clamp_le {k : Setting} {n : Nat} (h : n ≤ Text.maxSize) : k.clamp n ≤ Text.maxSize := by
  cases k with
  | readBufferSize => exact Nat.max_le.2 ⟨by decide, Nat.le_trans (Nat.min_le_left _ _) h⟩
  | inboundCapacity | outboundCapacity => exact Nat.max_le.2 ⟨h, by decide⟩
  | maxMessageSize => exact h

namespace Settings

theorem lookup_map_get (s : Settings) (k : Setting) :
    (Setting.all.map fun k => (k, s.get k)).lookup k = some (s.get k) := by
  cases k <;> rfl

theorem nodup_map_get (s : Settings) : ((Setting.all.map fun k => (k, s.get k)).map Prod.fst).Nodup := by
  rw [List.map_map]
  exact (List.map_id _).symm ▸ Setting.nodup_all

/-- Changing the default settings one by one into others gives these, brought into range. -/
theorem change_map_get (s : Settings) :
    ({} : Settings).change (Setting.all.map fun k => (k, s.get k)) = s.clamped := by
  refine ext_get fun k => ?_
  rw [get_change (nodup_map_get s), lookup_map_get, get_clamped, Option.getD_some]

end Settings

namespace FileFormat

variable {format : FileFormat} {s : Settings}

theorem ofFile_of_save_of_keepsLines (hformat : format.KeepsLines) (hsize : ∀ k, s.get k ≤ Text.maxSize)
    (path : String) (files : Files) :
    ∃ files', format.save s path none files = .ok files' ∧ format.ofFile files' path = .ok s.clamped := by
  have hsizes : ∀ c ∈ Setting.all.map fun k => (k, s.get k), c.2 ≤ Text.maxSize := by
    rintro _ hc
    obtain ⟨k, -, rfl⟩ := List.mem_map.1 hc
    exact hsize k
  rw [← Settings.change_map_get]
  exact ofFile_of_save (hformat.print s hsize) (hformat.read _ (Settings.nodup_map_get s) hsizes) path files

/-- Settings that were saved are loaded again with each in its range. They are as before exactly if they
were in range, and from then on they stay. -/
theorem saved_settings_reload (format : FileFormat) (hformat : format.KeepsLines) (s : Settings)
    (hsize : ∀ k, s.get k ≤ Text.maxSize) (path : String) (files : Files) :
    ∃ files' r, format.save s path none files = .ok files' ∧ format.ofFile files' path = .ok r ∧
      (∀ k, r.get k = k.clamp (s.get k)) ∧ r.maxMessageSize = s.maxMessageSize ∧ (r = s ↔ s.InRange) ∧
      ∀ path files, ∃ files', format.save r path none files = .ok files' ∧ format.ofFile files' path = .ok r := by
  have hclamped : ∀ k, s.clamped.get k ≤ Text.maxSize := fun k => by
    rw [Settings.get_clamped]
    exact Setting.clamp_le (hsize k)
  obtain ⟨files', hsave, hload⟩ := ofFile_of_save_of_keepsLines hformat hsize path files
  refine ⟨files', s.clamped, hsave, hload, s.get_clamped, rfl, Settings.inRange_iff_clamped.symm,
    fun path files => ?_⟩
  have hagain := ofFile_of_save_of_keepsLines hformat hclamped path files
  rwa [Settings.clamped_clamped] at hagain

theorem saved_settings_reload_out_of_range :
    yaml.KeepsLines ∧
    (∀ k, ({ readBufferSize := 16, inboundCapacity := 0, maxMessageSize := 0xffffffffffffffff } : Settings).get k ≤
      Text.maxSize) ∧
    ∃ files', yaml.save { readBufferSize := 16, inboundCapacity := 0, maxMessageSize := 0xffffffffffffffff } "saved"
        none (fun _ => .error .missing) = .ok files' ∧
      yaml.ofFile files' "saved" =
        .ok { readBufferSize := 1024, inboundCapacity := 1, maxMessageSize := 0xffffffffffffffff } := by
  have hsize : ∀ k, ({ readBufferSize := 16, inboundCapacity := 0, maxMessageSize := 0xffffffffffffffff } :
      Settings).get k ≤ Text.maxSize := by
    intro k
    cases k <;> decide
  obtain ⟨files', r, hsave, hr, hget, -⟩ :=
    saved_settings_reload yaml keepsLines_yaml _ hsize "saved" fun _ => .error .missing
  refine ⟨keepsLines_yaml, hsize, files', hsave, hr.trans (congrArg _ (Settings.ext_get fun k => ?_))⟩
  rw [hget]
  cases k <;> rfl

end FileFormat

end PacketWatch
