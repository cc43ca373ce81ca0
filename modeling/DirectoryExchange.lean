import DirectoryExchange.Base64
import DirectoryExchange.Bytes
import DirectoryExchange.Cli.Arguments
import DirectoryExchange.Cli.Files
import DirectoryExchange.Cli.Option
import DirectoryExchange.Cli.Program
import DirectoryExchange.Cli.Reading
import DirectoryExchange.Connection
import DirectoryExchange.Directory.AttributeBag
import DirectoryExchange.Directory.Basic
import DirectoryExchange.Directory.Change
import DirectoryExchange.Directory.InPlace
import DirectoryExchange.Dn.Basic
import DirectoryExchange.Dn.Key
import DirectoryExchange.Dsml.Printer
import DirectoryExchange.Dsml.Reader
import DirectoryExchange.Failure
import DirectoryExchange.Feed
import DirectoryExchange.Filter.Basic
import DirectoryExchange.Filter.Parser
import DirectoryExchange.Format
import DirectoryExchange.Ldap.FilterSyntax
import DirectoryExchange.Ldap.ReceivedEntry
import DirectoryExchange.Ldap.Request
import DirectoryExchange.Ldap.Session
import DirectoryExchange.Ldap.WireFilter
import DirectoryExchange.Ldif.Folding
import DirectoryExchange.Ldif.Line
import DirectoryExchange.Ldif.Printer
import DirectoryExchange.Ldif.Reader
import DirectoryExchange.Ldif.Record
import DirectoryExchange.Log
import DirectoryExchange.Main
import DirectoryExchange.Model.Attribute
import DirectoryExchange.Model.Change
import DirectoryExchange.Model.Entry
import DirectoryExchange.Model.Error
import DirectoryExchange.Model.ResultCode
import DirectoryExchange.Model.Search
import DirectoryExchange.Path
import DirectoryExchange.Pieces
import DirectoryExchange.Proofs.Base64
import DirectoryExchange.Proofs.Base64.Spelling
import DirectoryExchange.Proofs.Bytes
import DirectoryExchange.Proofs.Cli.Converting
import DirectoryExchange.Proofs.Directory.Additions
import DirectoryExchange.Proofs.Directory.Addressing
import DirectoryExchange.Proofs.Directory.AttributeBag
import DirectoryExchange.Proofs.Directory.Basic
import DirectoryExchange.Proofs.Directory.Changes
import DirectoryExchange.Proofs.Directory.DeadEnds
import DirectoryExchange.Proofs.Directory.Entries
import DirectoryExchange.Proofs.Directory.FilterTexts
import DirectoryExchange.Proofs.Directory.Grounding
import DirectoryExchange.Proofs.Directory.InPlace
import DirectoryExchange.Proofs.Directory.Moving
import DirectoryExchange.Proofs.Directory.Outcomes
import DirectoryExchange.Proofs.Directory.RdnValues
import DirectoryExchange.Proofs.Directory.RelativeNames
import DirectoryExchange.Proofs.Directory.Reload
import DirectoryExchange.Proofs.Directory.Rename
import DirectoryExchange.Proofs.Directory.Restoring
import DirectoryExchange.Proofs.Directory.Runs
import DirectoryExchange.Proofs.Directory.Searching
import DirectoryExchange.Proofs.Directory.Size
import DirectoryExchange.Proofs.Directory.Spellings
import DirectoryExchange.Proofs.Directory.Tree
import DirectoryExchange.Proofs.Directory.Walk
import DirectoryExchange.Proofs.Dn.Around
import DirectoryExchange.Proofs.Dn.Grammar
import DirectoryExchange.Proofs.Dn.Join
import DirectoryExchange.Proofs.Dn.Keys
import DirectoryExchange.Proofs.Dn.Parse
import DirectoryExchange.Proofs.Dn.Splitting
import DirectoryExchange.Proofs.Dn.Tokens
import DirectoryExchange.Proofs.Dsml.Characters
import DirectoryExchange.Proofs.Dsml.EmptyElements
import DirectoryExchange.Proofs.Dsml.Entry
import DirectoryExchange.Proofs.Dsml.EntryWalk
import DirectoryExchange.Proofs.Dsml.Pace
import DirectoryExchange.Proofs.Dsml.Pieces
import DirectoryExchange.Proofs.Dsml.RoundTrip
import DirectoryExchange.Proofs.Dsml.Tree
import DirectoryExchange.Proofs.Dsml.TreeReading
import DirectoryExchange.Proofs.Dsml.TreeWalk
import DirectoryExchange.Proofs.Dsml.Truncation
import DirectoryExchange.Proofs.Dsml.Walk
import DirectoryExchange.Proofs.Filter.Grammar
import DirectoryExchange.Proofs.Filter.Parse
import DirectoryExchange.Proofs.Ldap.Loading
import DirectoryExchange.Proofs.Ldap.ReceivedEntry
import DirectoryExchange.Proofs.Ldif.Among
import DirectoryExchange.Proofs.Ldif.ChangeLines
import DirectoryExchange.Proofs.Ldif.ContentLines
import DirectoryExchange.Proofs.Ldif.Document
import DirectoryExchange.Proofs.Ldif.Entry
import DirectoryExchange.Proofs.Ldif.ErrorLines
import DirectoryExchange.Proofs.Ldif.Faults
import DirectoryExchange.Proofs.Ldif.Folding
import DirectoryExchange.Proofs.Ldif.Layout
import DirectoryExchange.Proofs.Ldif.LineNumbers
import DirectoryExchange.Proofs.Ldif.Names
import DirectoryExchange.Proofs.Ldif.Pace
import DirectoryExchange.Proofs.Ldif.Parts
import DirectoryExchange.Proofs.Ldif.ReadAhead
import DirectoryExchange.Proofs.Ldif.Reading
import DirectoryExchange.Proofs.Ldif.RoundTrip
import DirectoryExchange.Proofs.Ldif.Separation
import DirectoryExchange.Proofs.Ldif.Spelling
import DirectoryExchange.Proofs.Model.Draft
import DirectoryExchange.Proofs.Model.Gathering
import DirectoryExchange.Proofs.Model.Merge
import DirectoryExchange.Proofs.Model.ObjectClass
import DirectoryExchange.Proofs.Pieces
import DirectoryExchange.Proofs.Reader
import DirectoryExchange.Proofs.SortedMap
import DirectoryExchange.Proofs.Text.Blank
import DirectoryExchange.Proofs.Text.LetterCase
import DirectoryExchange.Proofs.Text.Utf8
import DirectoryExchange.Proofs.Transfer.Conversion
import DirectoryExchange.Proofs.Transfer.Course
import DirectoryExchange.Proofs.Transfer.Dumping
import DirectoryExchange.Proofs.Transfer.Ending
import DirectoryExchange.Proofs.Transfer.Modes
import DirectoryExchange.Proofs.Transfer.Printing
import DirectoryExchange.Proofs.Transfer.Success
import DirectoryExchange.Proofs.Transfer.WriterCalls
import DirectoryExchange.Proofs.Traversal
import DirectoryExchange.Proofs.Writer
import DirectoryExchange.Proofs.Xml.CharacterData
import DirectoryExchange.Proofs.Xml.Content
import DirectoryExchange.Proofs.Xml.Escape
import DirectoryExchange.Proofs.Xml.Forest
import DirectoryExchange.Proofs.Xml.Markup
import DirectoryExchange.Proofs.Xml.Namespace
import DirectoryExchange.Proofs.Xml.Node
import DirectoryExchange.Proofs.Xml.Sections
import DirectoryExchange.Proofs.Xml.Tag
import DirectoryExchange.Proofs.Xml.WrittenTag
import DirectoryExchange.SortedMap
import DirectoryExchange.Stream
import DirectoryExchange.Text.Blank
import DirectoryExchange.Text.CaseFold
import DirectoryExchange.Text.CaseFold.Table
import DirectoryExchange.Text.Hex
import DirectoryExchange.Text.Lowercase
import DirectoryExchange.Text.Lowercase.Table
import DirectoryExchange.Text.Quoted
import DirectoryExchange.Text.Quoted.Table
import DirectoryExchange.Text.Ranges
import DirectoryExchange.Text.Utf8
import DirectoryExchange.Transfer.Dump
import DirectoryExchange.Transfer.Load
import DirectoryExchange.Transfer.Outcome
import DirectoryExchange.Writer
import DirectoryExchange.Xml.Escape
import DirectoryExchange.Xml.Markup
import DirectoryExchange.Xml.Node
import DirectoryExchange.Xml.Tag
