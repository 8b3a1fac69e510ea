import SnapdAsserts.Bytes
import SnapdAsserts.Header.Utf8
import SnapdAsserts.Header.Parse
import SnapdAsserts.Header.Grammar
import SnapdAsserts.Header.Errors
import SnapdAsserts.Header.Unicode
import SnapdAsserts.Header.Write
import SnapdAsserts.Assertion.Checks
import SnapdAsserts.Assertion.Assemble
import SnapdAsserts.Assertion.Codec
import SnapdAsserts.Assertion.Sign
import SnapdAsserts.Assertion.Canonical
import SnapdAsserts.Assertion.Errors
import SnapdAsserts.Stream.Reader
import SnapdAsserts.Stream.Decoder
import SnapdAsserts.Stream.Unread
import SnapdAsserts.Stream.Agreement
import SnapdAsserts.Stream.Complete
import SnapdAsserts.Stream.Rebuffer
import SnapdAsserts.Stream.Returned
import SnapdAsserts.Stream.Reachable
import SnapdAsserts.Stream.RoundTrip
import SnapdAsserts.Stream.Caps
import SnapdAsserts.Stream.Safety
import SnapdAsserts.Stream.Runs
import SnapdAsserts.Stream.Truncated
import SnapdAsserts.Stream.Search
import SnapdAsserts.Stream.Chunking
import SnapdAsserts.Stream.Rejected
import SnapdAsserts.Produced
