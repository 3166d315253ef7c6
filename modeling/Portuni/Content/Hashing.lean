import Mathlib.Tactic.Common

/-! The hashes Portuni compares file contents by, and what the two storage
backends report of them. -/

namespace Portuni.Content

universe u

structure Hashing (Bytes : Type u) where
  md5Buffer : Bytes → String
  sha256Buffer : Bytes → String
  md5_length : ∀ bytes, (md5Buffer bytes).length = 32
  sha256_length : ∀ bytes, (sha256Buffer bytes).length = 64

/-- The storage adapters: Drive reports md5 on `stat` and `put`, OpenDAL no
hash on `stat` and sha256 on `put`. -/
inductive Backend where
  | drive
  | opendal

variable {Bytes : Type u} (H : Hashing Bytes)

namespace Hashing

/-- The hash of `bytes` under the algorithm that the length of `like` implies. -/
def hashLike (like : String) (bytes : Bytes) : String :=
  if like.length = 32 then H.md5Buffer bytes else H.sha256Buffer bytes

def statHash : Backend → Bytes → Option String
  | .drive, bytes => some (H.md5Buffer bytes)
  | .opendal, _ => none

def putHash : Backend → Bytes → Option String
  | .drive, bytes => some (H.md5Buffer bytes)
  | .opendal, bytes => some (H.sha256Buffer bytes)

/-- The hash Portuni takes as a remote object's identity: what the backend
reports, else sha256. -/
def canonicalHash (backend : Backend) (bytes : Bytes) : String :=
  (H.putHash backend bytes).getD (H.sha256Buffer bytes)

@[simp]
theorem canonicalHash_drive (bytes : Bytes) : H.canonicalHash .drive bytes = H.md5Buffer bytes :=
  rfl

@[simp]
theorem canonicalHash_opendal (bytes : Bytes) :
    H.canonicalHash .opendal bytes = H.sha256Buffer bytes :=
  rfl

theorem hashLike_canonicalHash (backend : Backend) (other bytes : Bytes) :
    H.hashLike (H.canonicalHash backend other) bytes = H.canonicalHash backend bytes := by
  cases backend with
  | drive => simp [hashLike, H.md5_length]
  | opendal => simp [hashLike, H.sha256_length]

theorem statHash_getD_canonicalHash (backend : Backend) (bytes : Bytes) :
    (H.statHash backend bytes).getD (H.canonicalHash backend bytes) =
      H.canonicalHash backend bytes := by
  cases backend <;> rfl

theorem eq_canonicalHash_of_statHash {backend : Backend} {bytes : Bytes} {hash : String}
    (h : H.statHash backend bytes = some hash) : hash = H.canonicalHash backend bytes := by
  cases backend with
  | drive => exact (Option.some.inj h).symm
  | opendal => cases h

end Hashing

def sampleHashing : Hashing Bool where
  md5Buffer
    | true => "11111111111111111111111111111111"
    | false => "00000000000000000000000000000000"
  sha256Buffer
    | true => "1111111111111111111111111111111111111111111111111111111111111111"
    | false => "0000000000000000000000000000000000000000000000000000000000000000"
  md5_length := by decide
  sha256_length := by decide

end Portuni.Content
