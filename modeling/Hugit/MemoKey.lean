import Hugit.EventRecord

/-! The bytes that the memo key of a check is the digest of. -/

namespace Hugit

abbrev FileContent := Bytes

def memoKeyPreimage (treeHash defDigest toolchainDigest : String) : Bytes :=
  let buf := pushLpField [] treeHash
  let buf := pushLpField buf defDigest
  pushLpField buf toolchainDigest

theorem memoKeyPreimage_eq (treeHash defDigest toolchainDigest : String) :
    memoKeyPreimage treeHash defDigest toolchainDigest =
      frame (utf8 treeHash) ++ (frame (utf8 defDigest) ++ frame (utf8 toolchainDigest)) := by
  simp [memoKeyPreimage, pushLpField_eq]

end Hugit
