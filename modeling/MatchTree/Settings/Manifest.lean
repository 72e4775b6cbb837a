import MatchTree.Settings.Reading
import MatchTree.Toml.Reader

/-!
# Manifests as TOML texts

* `Manifest.ofToml` — the manifest that a text holds. Whether the text is no TOML or its values are
  no manifest, the fault is the same.
-/

namespace MatchTree

/-- The manifest of a text. -/
def Manifest.ofToml (s : String) : Except Fault Manifest :=
  match (Toml.document? s).bind (Manifest.ofDatum? .toml) with
  | some m => .ok m
  | none => .error .manifest

end MatchTree
