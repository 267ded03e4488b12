import TiLdap.Framework.Run
import TiLdap.Framework.Ledger
import TiLdap.Framework.Schedule
import TiLdap.Contract.Sessions
import TiLdap.Contract.Callbacks
import TiLdap.Contract.Handles
import TiLdap.Contract.Isolation
import TiLdap.Contract.Searches
import TiLdap.Contract.Abandon
import TiLdap.Contract.Deliveries
import TiLdap.Android.Cursors
import TiLdap.Contract.Cursors
import TiLdap.Contract.Values
import TiLdap.Ios.Limits
import TiLdap.Contract.Limits
import TiLdap.Android.Messages
import TiLdap.Ios.Messages
import TiLdap.Contract.Messages
import TiLdap.Framework.Mailbox
import TiLdap.Android.Silence
import TiLdap.Contract.Silence
import TiLdap.Contract.Targets
import TiLdap.Ios.Memory
import TiLdap.Ios.Ownership
import TiLdap.Ios.Lifetimes
import TiLdap.Contract.Ownership
import TiLdap.Framework.CString
import TiLdap.Ios.SaslPrompts
import TiLdap.Contract.Credentials
import TiLdap.Contract.Encoding
import TiLdap.Contract.Responses
import TiLdap.Contract.Entries
import TiLdap.Contract.Hosts
