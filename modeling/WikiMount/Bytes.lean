/-! # File contents -/

namespace WikiMount

/-- The content of a file. -/
abbrev Bytes := ByteArray

instance : DecidableEq Bytes := fun a b =>
  decidable_of_iff (a.data = b.data) ⟨ByteArray.ext, fun h => h ▸ rfl⟩

end WikiMount
